import Mathlib.Data.List.Infix
import Hermione.RustStrings

/-!
# Plain text from raw terminal bytes
-/

namespace Hermione

namespace Str

/-- `str::contains` for a piece of text. -/
def contains (text piece : Str) : Bool :=
  text.tails.any piece.isPrefixOf

theorem contains_iff {text piece : Str} : text.contains piece = true ↔ piece <:+: text := by
  simp only [contains, List.any_eq_true, List.mem_tails, List.isPrefixOf_iff_prefix,
    List.infix_iff_prefix_suffix, and_comm]

def toAsciiLowercase (text : Str) : Str :=
  text.map Char.toLower

/-- `str::as_bytes` -/
def asBytes (text : Str) : List UInt8 :=
  text.flatMap String.utf8EncodeChar

theorem asBytes_inj {first second : Str} : asBytes first = asBytes second ↔ first = second := by
  constructor
  · intro same
    have encoded : List.utf8Encode first = List.utf8Encode second :=
      congrArg List.toByteArray same
    rw [← String.toByteArray_ofList, ← String.toByteArray_ofList, String.toByteArray_inj,
      String.ofList_inj] at encoded
    exact encoded
  · exact congrArg asBytes

/-- Which second bytes a leading byte can have in well-formed UTF-8, and how many
bytes follow that one. -/
def continuation (lead : UInt8) : Option (UInt8 × UInt8 × Nat) :=
  if 0xC2 ≤ lead && lead ≤ 0xDF then some (0x80, 0xBF, 0)
  else if lead == 0xE0 then some (0xA0, 0xBF, 1)
  else if lead == 0xED then some (0x80, 0x9F, 1)
  else if 0xE1 ≤ lead && lead ≤ 0xEF then some (0x80, 0xBF, 1)
  else if lead == 0xF0 then some (0x90, 0xBF, 2)
  else if 0xF1 ≤ lead && lead ≤ 0xF3 then some (0x80, 0xBF, 2)
  else if lead == 0xF4 then some (0x80, 0x8F, 2)
  else none

/-- The low six bits of a byte that continues a character. -/
def trail (byte : UInt8) : Nat :=
  byte.toNat % 64

def isTrail (byte : UInt8) : Bool :=
  0x80 ≤ byte && byte ≤ 0xBF

def replacement : Char :=
  Char.ofNat 0xFFFD

/-- The character a leading byte begins, or the replacement for a character that
is broken off, and how many of the following bytes belong to it. -/
def decodeFirst (lead : UInt8) (rest : List UInt8) : Char × Nat :=
  if lead < 0x80 then (Char.ofNat lead.toNat, 0)
  else
    match continuation lead, rest with
    | some (low, high, more), second :: rest =>
        if low ≤ second && second ≤ high then
          match more, rest with
          | 0, _ => (Char.ofNat (lead.toNat % 32 * 64 + trail second), 1)
          | 1, third :: _ =>
              if isTrail third then
                (Char.ofNat (lead.toNat % 16 * 4096 + trail second * 64 + trail third), 2)
              else (replacement, 1)
          | _, third :: rest =>
              if isTrail third then
                match rest with
                | fourth :: _ =>
                    if isTrail fourth then
                      (Char.ofNat (lead.toNat % 8 * 262144 + trail second * 4096 +
                        trail third * 64 + trail fourth), 3)
                    else (replacement, 2)
                | [] => (replacement, 2)
              else (replacement, 1)
          | _, [] => (replacement, 1)
        else (replacement, 0)
    | _, _ => (replacement, 0)

/-- The characters of a byte sequence of which the first few bytes belong to the
character before. -/
def lossyAfter : Nat → List UInt8 → Str
  | _, [] => []
  | skip + 1, _ :: rest => lossyAfter skip rest
  | 0, lead :: rest =>
      (decodeFirst lead rest).1 :: lossyAfter (decodeFirst lead rest).2 rest

/-- `String::from_utf8_lossy`: what is not UTF-8 is replaced, one mark for the
longest start of a character and for every byte that starts none. -/
def fromUtf8Lossy (bytes : List UInt8) : Str :=
  lossyAfter 0 bytes

example :
    fromUtf8Lossy [0x68, 0xC3, 0xA9, 0xFF, 0xF0, 0x9F, 0x41] =
      ['h', 'é', replacement, replacement, 'A'] := by
  decide

end Str

/-- The crates that terminal bytes are passed through. -/
structure Codecs where
  /-- `strip_ansi_escapes::strip` -/
  stripAnsi : List UInt8 → List UInt8
  /-- Standard base64. -/
  encode : List UInt8 → Str
  decode : Str → Option (List UInt8)

/-- Strips escape sequences and reads the rest as lossy UTF-8. -/
def Codecs.plain (codecs : Codecs) (data : List UInt8) : Str :=
  Str.fromUtf8Lossy (codecs.stripAnsi data)

/-- The crates, on the one piece of output `hi`. -/
def Codecs.hello : Codecs :=
  { stripAnsi := id
    encode := fun data => if data = [104, 105] then "aGk=".toList else []
    decode := fun text => if text = "aGk=".toList then some [104, 105] else none }

/-- A text trimmed, unless it is missing or blank. -/
def nonBlank (text : Option Str) : Option Str :=
  (text.map Str.trim).filter fun trimmed => !trimmed.isEmpty

/-- Strong indicators that a piece of output represents an error. -/
def errorSignals : List Str :=
  ["traceback (most recent call last)".toList,
    "error:".toList,
    "exception".toList,
    "panicked at".toList,
    "command not found".toList,
    "no such file or directory".toList,
    "segmentation fault".toList,
    "assertionerror".toList,
    "fatal:".toList,
    "syntaxerror".toList]

/-- Whether a piece of output, escape sequences stripped, looks like an error. -/
def looksLikeError (text : Str) : Bool :=
  let lower := text.toAsciiLowercase
  errorSignals.any lower.contains

example : looksLikeError "bash: foo: Command not found".toList = true := by decide

example : looksLikeError "0 errors, 0 warnings".toList = false := by decide

end Hermione
