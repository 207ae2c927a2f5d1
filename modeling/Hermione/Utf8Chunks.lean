import Hermione.LossyText

/-!
# Text read from bytes in pieces

Reading the bytes of a text gives it back, and reading never makes bytes fewer: the
replacement character is as long as the longest start of a character that it stands
for.  So the bytes of a text, cut in pieces and read piece by piece, give the text
back exactly if every piece is itself UTF-8.
-/

namespace Hermione

namespace Str

open String (utf8Len utf8EncodeChar)

/-- The bytes are those of some text. -/
def IsUtf8 (bytes : List UInt8) : Prop :=
  ∃ text, bytes = asBytes text

theorem length_asBytes (text : Str) : (asBytes text).length = utf8Len text := by
  induction text with
  | nil => rfl
  | cons char text ih =>
      rw [asBytes_cons, List.length_append, String.length_utf8EncodeChar, ih, String.utf8Len_cons,
        Nat.add_comm]

/-! ### One character -/

theorem continuation_nat : ∀ lead : Fin 256, continuation (UInt8.ofNat lead) =
    if 194 ≤ lead.val ∧ lead.val ≤ 223 then some (128, 191, 0)
    else if 224 ≤ lead.val ∧ lead.val ≤ 239 then
      some (if lead.val = 224 then 160 else 128, if lead.val = 237 then 159 else 191, 1)
    else if 240 ≤ lead.val ∧ lead.val ≤ 244 then
      some (if lead.val = 240 then 144 else 128, if lead.val = 244 then 143 else 191, 2)
    else none := by
  decide +kernel

/-- What the bytes after a leading one are, by its number. -/
theorem continuation_eq (lead : UInt8) : continuation lead =
    if 194 ≤ lead.toNat ∧ lead.toNat ≤ 223 then some (128, 191, 0)
    else if 224 ≤ lead.toNat ∧ lead.toNat ≤ 239 then
      some (if lead.toNat = 224 then 160 else 128, if lead.toNat = 237 then 159 else 191, 1)
    else if 240 ≤ lead.toNat ∧ lead.toNat ≤ 244 then
      some (if lead.toNat = 240 then 144 else 128, if lead.toNat = 244 then 143 else 191, 2)
    else none := by
  have equal := continuation_nat ⟨lead.toNat, lead.toNat_lt⟩
  rwa [UInt8.ofNat_toNat] at equal

theorem isTrail_iff {byte : UInt8} : isTrail byte = true ↔ 128 ≤ byte.toNat ∧ byte.toNat ≤ 191 := by
  simp [isTrail, UInt8.le_iff_toNat_le]

theorem not_ascii {lead : UInt8} (high : 128 ≤ lead.toNat) : ¬ lead < 0x80 := by
  rw [UInt8.lt_iff_toNat_lt]
  exact not_lt.mpr high

section Decode

variable {lead second third fourth : UInt8} (rest : List UInt8)

theorem decodeFirst_two (leads : 194 ≤ lead.toNat ∧ lead.toNat ≤ 223)
    (trails : 128 ≤ second.toNat ∧ second.toNat ≤ 191) :
    decodeFirst lead (second :: rest) =
      (Char.ofNat (lead.toNat % 32 * 64 + trail second), 1) := by
  have within : ((128 : UInt8) ≤ second && second ≤ 191) = true := by
    simpa [UInt8.le_iff_toNat_le] using trails
  unfold decodeFirst
  rw [if_neg (not_ascii (by omega)), continuation_eq, if_pos leads]
  simp only [within, if_true]

theorem decodeFirst_three (leads : 224 ≤ lead.toNat ∧ lead.toNat ≤ 239)
    (low : (if lead.toNat = 224 then 160 else 128) ≤ second.toNat)
    (top : second.toNat ≤ if lead.toNat = 237 then 159 else 191)
    (trails : isTrail third = true) :
    decodeFirst lead (second :: third :: rest) =
      (Char.ofNat (lead.toNat % 16 * 4096 + trail second * 64 + trail third), 2) := by
  have within : ((if lead.toNat = 224 then (160 : UInt8) else 128) ≤ second &&
      second ≤ if lead.toNat = 237 then (159 : UInt8) else 191) = true := by
    rw [Bool.and_eq_true, decide_eq_true_iff, decide_eq_true_iff, UInt8.le_iff_toNat_le,
      UInt8.le_iff_toNat_le, apply_ite UInt8.toNat, apply_ite UInt8.toNat]
    exact ⟨low, top⟩
  unfold decodeFirst
  rw [if_neg (not_ascii (by omega)), continuation_eq, if_neg (by omega), if_pos leads]
  simp only [within, trails, if_true]

theorem decodeFirst_four (leads : 240 ≤ lead.toNat ∧ lead.toNat ≤ 244)
    (low : (if lead.toNat = 240 then 144 else 128) ≤ second.toNat)
    (top : second.toNat ≤ if lead.toNat = 244 then 143 else 191)
    (trails : isTrail third = true) (ends : isTrail fourth = true) :
    decodeFirst lead (second :: third :: fourth :: rest) =
      (Char.ofNat (lead.toNat % 8 * 262144 + trail second * 4096 + trail third * 64 +
        trail fourth), 3) := by
  have within : ((if lead.toNat = 240 then (144 : UInt8) else 128) ≤ second &&
      second ≤ if lead.toNat = 244 then (143 : UInt8) else 191) = true := by
    rw [Bool.and_eq_true, decide_eq_true_iff, decide_eq_true_iff, UInt8.le_iff_toNat_le,
      UInt8.le_iff_toNat_le, apply_ite UInt8.toNat, apply_ite UInt8.toNat]
    exact ⟨low, top⟩
  unfold decodeFirst
  rw [if_neg (not_ascii (by omega)), continuation_eq, if_neg (by omega), if_neg (by omega),
    if_pos leads]
  simp only [within, trails, ends, if_true]

end Decode

theorem toNat_ofNat {number : Nat} (small : number < 256) :
    (UInt8.ofNat number).toNat = number := by
  rw [UInt8.toNat_ofNat']
  omega

/-- The first character of a text is read from its bytes. -/
theorem decodeFirst_encode (char : Char) (rest : List UInt8) :
    ∃ lead tail, utf8EncodeChar char = lead :: tail ∧
      decodeFirst lead (tail ++ rest) = (char, tail.length) := by
  have valid : char.val.toNat < 55296 ∨ 57343 < char.val.toNat ∧ char.val.toNat < 1114112 :=
    char.valid
  have same : Char.ofNat char.val.toNat = char := Char.ofNat_toNat char
  generalize numberEq : char.val.toNat = number at valid same
  unfold utf8EncodeChar
  rw [numberEq]
  dsimp only
  split
  · next one =>
      refine ⟨_, _, rfl, ?_⟩
      have leadEq : (UInt8.ofNat number).toNat = number := toNat_ofNat (by omega)
      have ascii : UInt8.ofNat number < 0x80 := by
        rw [UInt8.lt_iff_toNat_lt, leadEq]
        exact Nat.lt_succ_of_le one
      simp only [decodeFirst, if_pos ascii, leadEq, same, List.length_nil]
  · next notOne =>
      split
      · next two =>
          refine ⟨_, _, rfl, ?_⟩
          have leadEq := @toNat_ofNat (number / 64 % 32 + 192) (by omega)
          have secondEq := @toNat_ofNat (number % 64 + 128) (by omega)
          have value : (number / 64 % 32 + 192) % 32 * 64 + (number % 64 + 128) % 64 = number := by
            omega
          rw [List.singleton_append, decodeFirst_two rest (by omega) (by omega), trail, leadEq,
            secondEq, value, same]
          rfl
      · next notTwo =>
          split
          · next three =>
              refine ⟨_, _, rfl, ?_⟩
              have leadEq := @toNat_ofNat (number / 4096 % 16 + 224) (by omega)
              have secondEq := @toNat_ofNat (number / 64 % 64 + 128) (by omega)
              have thirdEq := @toNat_ofNat (number % 64 + 128) (by omega)
              have value : (number / 4096 % 16 + 224) % 16 * 4096 +
                  (number / 64 % 64 + 128) % 64 * 64 + (number % 64 + 128) % 64 = number := by
                omega
              rw [List.cons_append, List.singleton_append, decodeFirst_three rest (by omega)
                (by split <;> omega) (by split <;> omega) (isTrail_iff.mpr (by omega)), trail,
                trail, leadEq, secondEq, thirdEq, value, same]
              rfl
          · next four =>
              refine ⟨_, _, rfl, ?_⟩
              have leadEq := @toNat_ofNat (number / 262144 % 8 + 240) (by omega)
              have secondEq := @toNat_ofNat (number / 4096 % 64 + 128) (by omega)
              have thirdEq := @toNat_ofNat (number / 64 % 64 + 128) (by omega)
              have fourthEq := @toNat_ofNat (number % 64 + 128) (by omega)
              have value : (number / 262144 % 8 + 240) % 8 * 262144 +
                  (number / 4096 % 64 + 128) % 64 * 4096 + (number / 64 % 64 + 128) % 64 * 64 +
                  (number % 64 + 128) % 64 = number := by
                omega
              rw [List.cons_append, List.cons_append, List.singleton_append,
                decodeFirst_four rest (by omega) (by split <;> omega) (by split <;> omega)
                  (isTrail_iff.mpr (by omega)) (isTrail_iff.mpr (by omega)), trail, trail, trail,
                leadEq, secondEq, thirdEq, fourthEq, value, same]
              rfl

/-! ### No fewer bytes -/

theorem utf8Size_replacement : replacement.utf8Size = 3 := by
  decide

/-- How many bytes the character of a number takes. -/
theorem utf8Size_ofNat {number : Nat} (valid : number.isValidChar) :
    (Char.ofNat number).utf8Size =
      if number ≤ 127 then 1 else if number ≤ 2047 then 2 else if number ≤ 65535 then 3 else 4 := by
  have value : (Char.ofNat number).val.toNat = number := by
    rw [Char.ofNat, dif_pos valid]
    rfl
  unfold Char.utf8Size
  simp only [UInt32.le_iff_toNat_le, value]
  rfl

theorem isValidChar_iff {number : Nat} :
    number.isValidChar ↔ number < 55296 ∨ 57343 < number ∧ number < 1114112 :=
  Iff.rfl

theorem continuation_shape {lead low top : UInt8} {more : Nat}
    (begins : continuation lead = some (low, top, more)) :
    (more = 0 ∧ 194 ≤ lead.toNat ∧ lead.toNat ≤ 223 ∧ low.toNat = 128 ∧ top.toNat = 191) ∨
      (more = 1 ∧ 224 ≤ lead.toNat ∧ lead.toNat ≤ 239 ∧
        low.toNat = (if lead.toNat = 224 then 160 else 128) ∧
        top.toNat = if lead.toNat = 237 then 159 else 191) ∨
      (more = 2 ∧ 240 ≤ lead.toNat ∧ lead.toNat ≤ 244 ∧
        low.toNat = (if lead.toNat = 240 then 144 else 128) ∧
        top.toNat = if lead.toNat = 244 then 143 else 191) := by
  rw [continuation_eq] at begins
  split at begins
  · next two =>
      simp only [Option.some.injEq, Prod.mk.injEq] at begins
      obtain ⟨rfl, rfl, rfl⟩ := begins
      exact .inl ⟨rfl, two.1, two.2, rfl, rfl⟩
  · split at begins
    · next three =>
        simp only [Option.some.injEq, Prod.mk.injEq] at begins
        obtain ⟨rfl, rfl, rfl⟩ := begins
        exact .inr (.inl
          ⟨rfl, three.1, three.2, apply_ite UInt8.toNat .., apply_ite UInt8.toNat ..⟩)
    · split at begins
      · next four =>
          simp only [Option.some.injEq, Prod.mk.injEq] at begins
          obtain ⟨rfl, rfl, rfl⟩ := begins
          exact .inr (.inr
            ⟨rfl, four.1, four.2, apply_ite UInt8.toNat .., apply_ite UInt8.toNat ..⟩)
      · cases begins

section Widths

variable {lead second third fourth low top : UInt8}

theorem two_le_utf8Size (leads : 194 ≤ lead.toNat ∧ lead.toNat ≤ 223) :
    2 ≤ (Char.ofNat (lead.toNat % 32 * 64 + trail second)).utf8Size := by
  rw [utf8Size_ofNat (isValidChar_iff.mpr (by rw [trail]; omega)), trail]
  split_ifs <;> omega

theorem three_le_utf8Size (leads : 224 ≤ lead.toNat ∧ lead.toNat ≤ 239)
    (least : (if lead.toNat = 224 then 160 else 128) ≤ second.toNat)
    (most : second.toNat ≤ if lead.toNat = 237 then 159 else 191)
    (trails : isTrail third = true) :
    3 ≤ (Char.ofNat (lead.toNat % 16 * 4096 + trail second * 64 + trail third)).utf8Size := by
  rw [isTrail_iff] at trails
  have valid : (lead.toNat % 16 * 4096 + trail second * 64 + trail third).isValidChar := by
    rw [isValidChar_iff, trail, trail]
    split_ifs at least most <;> omega
  rw [utf8Size_ofNat valid, trail, trail]
  split_ifs at least most ⊢ <;> omega

theorem four_le_utf8Size (leads : 240 ≤ lead.toNat ∧ lead.toNat ≤ 244)
    (least : (if lead.toNat = 240 then 144 else 128) ≤ second.toNat)
    (most : second.toNat ≤ if lead.toNat = 244 then 143 else 191)
    (trails : isTrail third = true) (ends : isTrail fourth = true) :
    4 ≤ (Char.ofNat (lead.toNat % 8 * 262144 + trail second * 4096 + trail third * 64 +
      trail fourth)).utf8Size := by
  rw [isTrail_iff] at trails ends
  have valid : (lead.toNat % 8 * 262144 + trail second * 4096 + trail third * 64 +
      trail fourth).isValidChar := by
    rw [isValidChar_iff, trail, trail, trail]
    split_ifs at least most <;> omega
  rw [utf8Size_ofNat valid, trail, trail, trail]
  split_ifs at least most ⊢ <;> omega

end Widths

/-- The character that is read takes as many bytes as were read, or more. -/
theorem width_decodeFirst (lead : UInt8) (rest : List UInt8) :
    (decodeFirst lead rest).2 + 1 ≤ (decodeFirst lead rest).1.utf8Size := by
  have short {skip : Nat} (few : skip ≤ 2) : skip + 1 ≤ replacement.utf8Size := by
    rw [utf8Size_replacement]
    omega
  by_cases ascii : lead < 0x80
  · simp only [decodeFirst, if_pos ascii]
    exact Char.utf8Size_pos _
  unfold decodeFirst
  rw [if_neg ascii]
  cases rest with
  | nil => cases continuation lead <;> exact short (Nat.zero_le _)
  | cons second rest =>
      cases begins : continuation lead with
      | none => exact short (Nat.zero_le _)
      | some bounds =>
          obtain ⟨low, top, more⟩ := bounds
          by_cases within : (low ≤ second && second ≤ top) = true
          · simp only [within, if_true]
            rw [Bool.and_eq_true, decide_eq_true_iff, decide_eq_true_iff,
              UInt8.le_iff_toNat_le, UInt8.le_iff_toNat_le] at within
            obtain ⟨rfl, first, last, -, -⟩ | ⟨rfl, first, last, lowEq, topEq⟩ |
              ⟨rfl, first, last, lowEq, topEq⟩ := continuation_shape begins
            · exact two_le_utf8Size ⟨first, last⟩
            · rw [lowEq, topEq] at within
              cases rest with
              | nil => exact @short 1 (by omega)
              | cons third rest =>
                  by_cases trails : isTrail third = true
                  · simp only [trails, if_true]
                    exact three_le_utf8Size ⟨first, last⟩ within.1 within.2 trails
                  · simp only [if_neg trails]
                    exact short (by omega)
            · rw [lowEq, topEq] at within
              cases rest with
              | nil => exact @short 1 (by omega)
              | cons third rest =>
                  by_cases trails : isTrail third = true
                  · simp only [trails, if_true]
                    cases rest with
                    | nil => exact short (le_refl _)
                    | cons fourth rest =>
                        by_cases ends : isTrail fourth = true
                        · simp only [ends, if_true]
                          exact four_le_utf8Size ⟨first, last⟩ within.1 within.2 trails ends
                        · simp only [if_neg ends]
                          exact short (le_refl _)
                  · simp only [if_neg trails]
                    exact short (by omega)
          · simp only [if_neg within]
            exact short (Nat.zero_le _)

theorem length_le_lossyAfter (skip : Nat) (bytes : List UInt8) :
    bytes.length ≤ skip + utf8Len (lossyAfter skip bytes) := by
  induction bytes generalizing skip with
  | nil => exact Nat.zero_le _
  | cons lead bytes ih =>
      cases skip with
      | succ skip =>
          have rest := ih skip
          rw [lossyAfter, List.length_cons]
          omega
      | zero =>
          have rest := ih (decodeFirst lead bytes).2
          have width := width_decodeFirst lead bytes
          rw [lossyAfter, String.utf8Len_cons, List.length_cons]
          omega

theorem length_le_fromUtf8Lossy (bytes : List UInt8) :
    bytes.length ≤ (asBytes (fromUtf8Lossy bytes)).length := by
  rw [length_asBytes]
  simpa [fromUtf8Lossy] using length_le_lossyAfter 0 bytes

/-! ### Whole texts and their pieces -/

theorem lossyAfter_append (tail rest : List UInt8) :
    lossyAfter tail.length (tail ++ rest) = lossyAfter 0 rest := by
  induction tail with
  | nil => rfl
  | cons byte tail ih => exact ih

theorem fromUtf8Lossy_append (text : Str) (rest : List UInt8) :
    fromUtf8Lossy (asBytes text ++ rest) = text ++ fromUtf8Lossy rest := by
  induction text with
  | nil => rfl
  | cons char text ih =>
      obtain ⟨lead, tail, encoded, decoded⟩ := decodeFirst_encode char (asBytes text ++ rest)
      rw [asBytes_cons, encoded, List.append_assoc, List.cons_append, fromUtf8Lossy, lossyAfter,
        decoded, lossyAfter_append]
      exact congrArg (char :: ·) ih

/-- Reading the bytes of a text gives it back. -/
theorem fromUtf8Lossy_asBytes (text : Str) : fromUtf8Lossy (asBytes text) = text := by
  simpa [fromUtf8Lossy, lossyAfter] using fromUtf8Lossy_append text []

theorem isUtf8_iff {bytes : List UInt8} : IsUtf8 bytes ↔ asBytes (fromUtf8Lossy bytes) = bytes := by
  constructor
  · rintro ⟨text, rfl⟩
    rw [fromUtf8Lossy_asBytes]
  · intro same
    exact ⟨_, same.symm⟩

instance (bytes : List UInt8) : Decidable (IsUtf8 bytes) :=
  decidable_of_iff _ isUtf8_iff.symm

theorem asBytes_flatMap (chunks : List (List UInt8)) :
    asBytes (chunks.flatMap fromUtf8Lossy) =
      chunks.flatMap fun chunk => asBytes (fromUtf8Lossy chunk) := by
  unfold asBytes
  rw [List.flatMap_assoc]

/-- Pieces that are as long together as what is read from them are all UTF-8. -/
theorem isUtf8_of_flatMap {chunks : List (List UInt8)}
    (same : (chunks.flatMap fun chunk => asBytes (fromUtf8Lossy chunk)) = chunks.flatten) :
    ∀ chunk ∈ chunks, IsUtf8 chunk := by
  have longer (chunks : List (List UInt8)) : chunks.flatten.length ≤
      (chunks.flatMap fun chunk => asBytes (fromUtf8Lossy chunk)).length := by
    induction chunks with
    | nil => exact le_refl _
    | cons chunk chunks ih =>
        have first := length_le_fromUtf8Lossy chunk
        rw [List.flatMap_cons, List.flatten_cons, List.length_append, List.length_append]
        omega
  induction chunks with
  | nil =>
      intro chunk member
      cases member
  | cons chunk chunks ih =>
      rw [List.flatMap_cons, List.flatten_cons] at same
      have lengths := congrArg List.length same
      have first := length_le_fromUtf8Lossy chunk
      have rest := longer chunks
      rw [List.length_append, List.length_append] at lengths
      obtain ⟨here, later⟩ := List.append_inj same (by omega)
      intro other member
      rcases List.mem_cons.mp member with rfl | among
      · exact isUtf8_iff.mpr here
      · exact ih later other among

/-- The bytes of a text, read piece by piece, give it back exactly if no piece cuts a
character. -/
theorem flatMap_fromUtf8Lossy_eq_iff {chunks : List (List UInt8)} {text : Str}
    (whole : chunks.flatten = asBytes text) :
    chunks.flatMap fromUtf8Lossy = text ↔ ∀ chunk ∈ chunks, IsUtf8 chunk := by
  rw [← asBytes_inj, asBytes_flatMap, ← whole]
  constructor
  · exact isUtf8_of_flatMap
  · intro all
    rw [← List.flatMap_id']
    apply List.flatMap_congr
    intro chunk member
    exact isUtf8_iff.mp (all chunk member)

/-! ### The beginning of a stream -/

/-- What the pieces bring of the first so many bytes. -/
def piecesBefore : Nat → List (List UInt8) → List (List UInt8)
  | _, [] => []
  | limit, chunk :: chunks => chunk.take limit :: piecesBefore (limit - chunk.length) chunks

theorem flatten_piecesBefore (limit : Nat) (chunks : List (List UInt8)) :
    (piecesBefore limit chunks).flatten = chunks.flatten.take limit := by
  induction chunks generalizing limit with
  | nil => exact List.take_nil.symm
  | cons chunk chunks ih =>
      rw [piecesBefore, List.flatten_cons, List.flatten_cons, ih, List.take_append]

theorem piecesBefore_eq_self {limit : Nat} {chunks : List (List UInt8)}
    (all : chunks.flatten.length ≤ limit) : piecesBefore limit chunks = chunks := by
  induction chunks generalizing limit with
  | nil => rfl
  | cons chunk chunks ih =>
      rw [List.flatten_cons, List.length_append] at all
      rw [piecesBefore, ih (by omega), List.take_of_length_le (by omega)]

/-- Where no character is cut in that part of a stream, it is read as it is, whatever
comes after it. -/
theorem flatMap_piecesBefore_prefix {limit : Nat} {chunks : List (List UInt8)}
    (whole : ∀ piece ∈ piecesBefore limit chunks, IsUtf8 piece) :
    (piecesBefore limit chunks).flatMap fromUtf8Lossy <+: chunks.flatMap fromUtf8Lossy := by
  induction chunks generalizing limit with
  | nil => exact List.prefix_refl _
  | cons chunk chunks ih =>
      rw [piecesBefore, List.forall_mem_cons] at whole
      obtain ⟨⟨text, here⟩, later⟩ := whole
      rw [piecesBefore, List.flatMap_cons, List.flatMap_cons]
      rcases Nat.le_total chunk.length limit with short | long
      · rw [List.take_of_length_le short]
        exact (List.prefix_append_right_inj _).mpr (ih later)
      · -- The part ends in this piece.
        have none : (piecesBefore (limit - chunk.length) chunks).flatMap fromUtf8Lossy = [] := by
          have bytes := flatten_piecesBefore (limit - chunk.length) chunks
          rw [Nat.sub_eq_zero_of_le long, List.take_zero, List.flatten_eq_nil_iff] at bytes
          rw [Nat.sub_eq_zero_of_le long, List.flatMap_eq_nil_iff]
          intro piece member
          rw [bytes piece member]
          rfl
        have read := fromUtf8Lossy_append text (chunk.drop limit)
        rw [← here, List.take_append_drop] at read
        rw [none, List.append_nil, here, fromUtf8Lossy_asBytes, read, List.append_assoc]
        exact List.prefix_append _ _

end Str

end Hermione
