import Hermione.Text

/-!
# ASCII words in lossily read bytes

A byte below 128 is read as the character it is, and no other byte becomes part of
such a character, so the letters of a word are found in the text exactly where they
are found in the bytes.
-/

namespace Hermione

/-- A byte in lower case, if it is an ASCII letter. -/
def lowerByte (byte : UInt8) : UInt8 :=
  if 65 ≤ byte && byte ≤ 90 then byte + 32 else byte

namespace Str

/-- Every character is a lower-case ASCII letter. -/
def Letters (word : Str) : Prop :=
  ∀ letter ∈ word, 97 ≤ letter.toNat ∧ letter.toNat ≤ 122

theorem letters_of_all {word : Str}
    (all : (word.all fun letter => 97 ≤ letter.toNat && letter.toNat ≤ 122) = true) :
    Letters word := by
  intro letter found
  simpa using List.all_eq_true.mp all letter found

/-! ### A character and its bytes -/

theorem lowerByte_of_high {byte : UInt8} (high : 128 ≤ byte.toNat) : lowerByte byte = byte := by
  have above : ¬ byte ≤ 90 := by
    rw [UInt8.le_iff_toNat_le]
    change ¬ byte.toNat ≤ 90
    omega
  simp [lowerByte, above]

theorem toLower_ascii_nat :
    ∀ value : Fin 128, (Char.ofNat value).toLower.toNat =
      (lowerByte (UInt8.ofNat value)).toNat := by
  decide +kernel

theorem toLower_ascii {byte : UInt8} (low : byte.toNat < 128) :
    (Char.ofNat byte.toNat).toLower.toNat = (lowerByte byte).toNat := by
  have lowered := toLower_ascii_nat ⟨byte.toNat, low⟩
  rwa [UInt8.ofNat_toNat] at lowered

theorem ofNat_high {value : Nat} (high : 128 ≤ value) :
    Char.ofNat value = Char.ofNat 0 ∨ 128 ≤ (Char.ofNat value).toNat := by
  by_cases valid : value.isValidChar
  · right
    have read : (Char.ofNat value).toNat = value := by
      rw [Char.ofNat, dif_pos valid]
      rfl
    omega
  · left
    rw [Char.ofNat, dif_neg valid]
    rfl

/-- A number from 128 on is no letter's, nor does it become one in lower case. -/
theorem toLower_high {value : Nat} {letter : Char} (high : 128 ≤ value)
    (letters : 97 ≤ letter.toNat ∧ letter.toNat ≤ 122) :
    (Char.ofNat value).toLower ≠ letter := by
  rintro rfl
  obtain null | above := ofNat_high high
  · rw [null] at letters
    exact absurd letters (by decide)
  · have same : (Char.ofNat value).toLower = Char.ofNat value := by
      apply toLower_of_not_isUpper
      rw [isUpper_iff]
      omega
    rw [same] at letters
    omega

theorem utf8EncodeChar_letter {letter : Char} (letters : 97 ≤ letter.toNat ∧ letter.toNat ≤ 122) :
    String.utf8EncodeChar letter = [letter.toNat.toUInt8] := by
  have low : letter.val.toNat ≤ 127 := by
    change letter.toNat ≤ 127
    omega
  simp only [String.utf8EncodeChar, if_pos low]
  rfl

/-! ### Leading bytes -/

/-- What the second byte of a character can be, by the byte that begins it. -/
theorem continuation_bounds {lead low top : UInt8} {more : Nat}
    (begins : continuation lead = some (low, top, more)) :
    128 ≤ low.toNat ∧ top.toNat ≤ 191 ∧
      ((more = 0 ∧ 194 ≤ lead.toNat ∧ lead.toNat ≤ 223) ∨
        (more = 1 ∧ 224 ≤ lead.toNat ∧ lead.toNat ≤ 239 ∧
          (lead.toNat = 224 → 160 ≤ low.toNat)) ∨
        (more = 2 ∧ 240 ≤ lead.toNat ∧ lead.toNat ≤ 244 ∧
          (lead.toNat = 240 → 144 ≤ low.toNat))) := by
  unfold continuation at begins
  simp only [Bool.and_eq_true, decide_eq_true_eq, UInt8.le_iff_toNat_le, beq_iff_eq,
    ← UInt8.toNat_inj, UInt8.reduceToNat] at begins
  split_ifs at begins <;> simp only [Option.some.injEq, Prod.mk.injEq] at begins <;>
    obtain ⟨rfl, rfl, rfl⟩ := begins <;> simp <;> omega

theorem high_of_isTrail {byte : UInt8} (trails : isTrail byte = true) : 128 ≤ byte.toNat := by
  simp only [isTrail, Bool.and_eq_true, decide_eq_true_eq, UInt8.le_iff_toNat_le,
    UInt8.reduceToNat] at trails
  omega

/-- The character and the bytes after the leading one have nothing of ASCII. -/
structure High (read : Char × Nat) (rest : List UInt8) : Prop where
  char : ∃ value, 128 ≤ value ∧ read.1 = Char.ofNat value
  skipped : ∀ byte ∈ rest.take read.2, 128 ≤ byte.toNat

theorem high_replacement {rest : List UInt8} {skip : Nat}
    (skipped : ∀ byte ∈ rest.take skip, 128 ≤ byte.toNat) : High (replacement, skip) rest where
  char := ⟨0xFFFD, by omega, rfl⟩
  skipped := skipped

/-- What a byte from 128 on begins. -/
theorem decodeFirst_high {lead : UInt8} (rest : List UInt8) (high : 128 ≤ lead.toNat) :
    High (decodeFirst lead rest) rest := by
  have notAscii : ¬ lead < 0x80 := by
    simp only [UInt8.lt_iff_toNat_lt, UInt8.reduceToNat]
    omega
  unfold decodeFirst
  rw [if_neg notAscii]
  cases begins : continuation lead with
  | none => cases rest <;> exact high_replacement (by simp)
  | some bounds =>
      obtain ⟨low, top, more⟩ := bounds
      obtain ⟨lowHigh, topBound, shape⟩ := continuation_bounds begins
      cases rest with
      | nil => exact high_replacement (by simp)
      | cons second rest =>
          by_cases within : (low ≤ second && second ≤ top) = true
          · have bounds : low.toNat ≤ second.toNat ∧ second.toNat ≤ top.toNat := by
              simpa [UInt8.le_iff_toNat_le] using within
            have secondHigh : 128 ≤ second.toNat := by omega
            simp only [within, if_true]
            obtain ⟨rfl, most⟩ | ⟨rfl, most⟩ | ⟨rfl, most⟩ := shape
            · exact ⟨⟨_, by simp only [trail]; omega, rfl⟩, by simpa using secondHigh⟩
            · cases rest with
              | nil => exact high_replacement (by simpa using secondHigh)
              | cons third rest =>
                  by_cases trails : isTrail third = true
                  · have thirdHigh := high_of_isTrail trails
                    simp only [trails, if_true]
                    exact ⟨⟨_, by simp only [trail]; omega, rfl⟩,
                      by simp [secondHigh, thirdHigh]⟩
                  · simp only [if_neg trails]
                    exact high_replacement (by simpa using secondHigh)
            · cases rest with
              | nil => exact high_replacement (by simpa using secondHigh)
              | cons third rest =>
                  by_cases trails : isTrail third = true
                  · have thirdHigh := high_of_isTrail trails
                    simp only [trails, if_true]
                    cases rest with
                    | nil => exact high_replacement (by simp [secondHigh, thirdHigh])
                    | cons fourth rest =>
                        by_cases ends : isTrail fourth = true
                        · have fourthHigh := high_of_isTrail ends
                          simp only [ends, if_true]
                          exact ⟨⟨_, by simp only [trail]; omega, rfl⟩,
                            by simp [secondHigh, thirdHigh, fourthHigh]⟩
                        · simp only [if_neg ends]
                          exact high_replacement (by simp [secondHigh, thirdHigh])
                  · simp only [if_neg trails]
                    exact high_replacement (by simpa using secondHigh)
          · simp only [if_neg within]
            exact high_replacement (by simp)

/-! ### Words -/

section Words

variable {word : Str}

theorem asBytes_cons (letter : Char) (word : Str) :
    asBytes (letter :: word) = String.utf8EncodeChar letter ++ asBytes word :=
  rfl

/-- A word stands at the start of the text where it stands at the start of the bytes. -/
theorem prefix_lossy_iff (letters : Letters word) (bytes : List UInt8) :
    word <+: (lossyAfter 0 bytes).toAsciiLowercase ↔ asBytes word <+: bytes.map lowerByte := by
  induction word generalizing bytes with
  | nil => simp [asBytes]
  | cons letter word ih =>
      have letterBounds := letters letter List.mem_cons_self
      have rest := fun letter' found => letters letter' (List.mem_cons_of_mem letter found)
      rw [asBytes_cons, utf8EncodeChar_letter letterBounds]
      cases bytes with
      | nil => simp [lossyAfter, toAsciiLowercase]
      | cons lead bytes =>
          simp only [lossyAfter, toAsciiLowercase, List.map_cons, List.cons_prefix_cons,
            List.singleton_append]
          by_cases high : 128 ≤ lead.toNat
          · obtain ⟨value, above, read⟩ := (decodeFirst_high bytes high).char
            have first : letter ≠ (decodeFirst lead bytes).1.toLower := by
              rw [read]
              exact (toLower_high above letterBounds).symm
            have firstByte : letter.toNat.toUInt8 ≠ lowerByte lead := by
              rw [lowerByte_of_high high, ne_eq, ← UInt8.toNat_inj]
              simp only [Nat.toUInt8_eq, UInt8.toNat_ofNat']
              omega
            simp [first, firstByte]
          · have low : lead < 0x80 := by
              simp only [UInt8.lt_iff_toNat_lt, UInt8.reduceToNat]
              omega
            have lowered := toLower_ascii (Nat.lt_of_not_le high)
            have first : letter = (Char.ofNat lead.toNat).toLower ↔
                letter.toNat.toUInt8 = lowerByte lead := by
              rw [← Char.toNat_inj, lowered, ← UInt8.toNat_inj]
              simp only [Nat.toUInt8_eq, UInt8.toNat_ofNat']
              omega
            simp only [decodeFirst, if_pos low]
            exact and_congr first (ih rest bytes)

theorem decodeFirst_skipped (lead : UInt8) (rest : List UInt8) :
    ∀ byte ∈ rest.take (decodeFirst lead rest).2, 128 ≤ byte.toNat := by
  by_cases high : 128 ≤ lead.toNat
  · exact (decodeFirst_high rest high).skipped
  · have low : lead < 0x80 := by
      simp only [UInt8.lt_iff_toNat_lt, UInt8.reduceToNat]
      omega
    simp [decodeFirst, low]

theorem not_prefix_of_high {byte : UInt8} (letters : Letters word) (wordy : word ≠ [])
    (high : 128 ≤ byte.toNat) (bytes : List UInt8) :
    ¬ asBytes word <+: lowerByte byte :: bytes := by
  cases word with
  | nil => exact absurd rfl wordy
  | cons letter word =>
      have letterBounds := letters letter List.mem_cons_self
      rw [asBytes_cons, utf8EncodeChar_letter letterBounds, lowerByte_of_high high,
        List.singleton_append, List.cons_prefix_cons]
      rintro ⟨same, _⟩
      rw [← UInt8.toNat_inj] at same
      simp only [Nat.toUInt8_eq, UInt8.toNat_ofNat'] at same
      omega

/-- Bytes that belong to an earlier character are no part of a word. -/
theorem infix_lossyAfter_iff (letters : Letters word) (wordy : word ≠ []) (skip : Nat)
    (bytes : List UInt8) (skipped : ∀ byte ∈ bytes.take skip, 128 ≤ byte.toNat) :
    word <:+: (lossyAfter skip bytes).toAsciiLowercase ↔
      asBytes word <:+: bytes.map lowerByte := by
  induction bytes generalizing skip with
  | nil =>
      cases word with
      | nil => exact absurd rfl wordy
      | cons letter word =>
          have letterBounds := letters letter List.mem_cons_self
          simp [lossyAfter, toAsciiLowercase, asBytes_cons, utf8EncodeChar_letter letterBounds]
  | cons lead bytes ih =>
      rw [List.map_cons, List.infix_cons_iff]
      cases skip with
      | succ skip =>
          have high : 128 ≤ lead.toNat := skipped lead (by simp)
          have rest : ∀ byte ∈ bytes.take skip, 128 ≤ byte.toNat := fun byte found =>
            skipped byte (by simp [found])
          simp only [lossyAfter, ih skip rest, not_prefix_of_high letters wordy high, false_or]
      | zero =>
          have starts := prefix_lossy_iff letters (lead :: bytes)
          have goesOn := ih (decodeFirst lead bytes).2 (decodeFirst_skipped lead bytes)
          simp only [lossyAfter, toAsciiLowercase, List.map_cons] at starts goesOn ⊢
          rw [List.infix_cons_iff, starts, goesOn]

/-- A word is in the text, in any case, where it is in the bytes. -/
theorem contains_fromUtf8Lossy_iff (letters : Letters word) (wordy : word ≠ [])
    (bytes : List UInt8) :
    (fromUtf8Lossy bytes).toAsciiLowercase.contains word = true ↔
      asBytes word <:+: bytes.map lowerByte := by
  rw [contains_iff]
  exact infix_lossyAfter_iff letters wordy 0 bytes (by simp)

end Words

end Str

end Hermione
