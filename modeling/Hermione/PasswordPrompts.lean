import Hermione.EventRuns
import Hermione.LossyText
import Hermione.SessionIngest

/-!
# Redacting passwords

The recorder shuttles bytes between the terminal and the program it records.  One
thread reads the program's output and looks for password prompts in it; another
reads the keyboard and, where input is captured, sends what it read on unless a
prompt was seen.  They share one flag.  Each event is what one thread does between
two of its accesses to what is shared.
-/

namespace Hermione

namespace Recorder

/-- Does this terminal output look like a password or passphrase prompt? -/
def looksLikePasswordPrompt (bytes : List UInt8) : Bool :=
  let text := (Str.fromUtf8Lossy bytes).toAsciiLowercase
  text.contains "password".toList || text.contains "passphrase".toList

def isNewline (byte : UInt8) : Bool :=
  byte == '\r'.toNat.toUInt8 || byte == '\n'.toNat.toUInt8

/-! ### What must not be recorded -/

def promptWords : List (List UInt8) :=
  [Str.asBytes "password".toList, Str.asBytes "passphrase".toList]

/-- A prompt is seen in a piece of output that has one of the words in it whole. -/
theorem looksLikePasswordPrompt_iff (bytes : List UInt8) :
    looksLikePasswordPrompt bytes = true ↔
      ∃ word ∈ promptWords, word <:+: bytes.map lowerByte := by
  have password := Str.letters_of_all (rfl : "password".toList.all _ = true)
  have passphrase := Str.letters_of_all (rfl : "passphrase".toList.all _ = true)
  simp only [looksLikePasswordPrompt, Bool.or_eq_true, promptWords,
    Str.contains_fromUtf8Lossy_iff password (by decide),
    Str.contains_fromUtf8Lossy_iff passphrase (by decide), List.mem_cons,
    List.not_mem_nil, or_false, exists_eq_or_imp, exists_eq_left]

/-- Output that ends with a word of a prompt. -/
def endsPrompt (output : List UInt8) : Bool :=
  promptWords.any fun word => word.isSuffixOf (output.map lowerByte)

/-- With these bytes a prompt has been completely read. -/
def completes (seen bytes : List UInt8) : Bool :=
  bytes.inits.any fun part => !part.isEmpty && endsPrompt (seen ++ part)

/-- Up to and including the first newline. -/
def throughNewline : List UInt8 → List UInt8
  | [] => []
  | byte :: bytes => if isNewline byte then [byte] else byte :: throughNewline bytes

/-! ### The two threads -/

/-- Where the thread that reads the program's output is. -/
inductive Output where
  | reading
  /-- It has yet to show what it read and look at it. -/
  | got (bytes : List UInt8)
  /-- It has yet to send it. -/
  | looked (bytes : List UInt8)
  | over
  deriving DecidableEq

/-- Where the thread that reads the keyboard is. -/
inductive Input where
  | reading
  /-- It has yet to pass on what it read and decide whether to send it.  The secret
  is kept for the record: the bytes of it that must not be sent. -/
  | got (bytes secret : List UInt8)
  /-- It has yet to look for a newline. -/
  | judged (bytes : List UInt8)
  | over
  deriving DecidableEq

/-- A chunk that was sent, and which of its bytes should not have been. -/
structure Teed where
  stream : StreamKind
  data : List UInt8
  secret : List UInt8
  deriving DecidableEq

/-- The flag, the threads and what was sent; for the record, the output read so far
and whether a prompt has been read since the last newline was. -/
structure State where
  redacting : Bool
  output : Output
  input : Input
  sent : List Teed
  seen : List UInt8
  guarding : Bool
  deriving DecidableEq

def start : State :=
  { redacting := false, output := .reading, input := .reading, sent := [], seen := []
    guarding := false }

inductive Event where
  /-- The program's output is read, so much of it. -/
  | output (bytes : List UInt8)
  /-- What was read is shown on the terminal, or cannot be, and looked at. -/
  | look (shown : Bool)
  /-- It is sent, if there is room. -/
  | tee (room : Bool)
  /-- The program's output ends. -/
  | outputEnds
  /-- The keyboard is read. -/
  | input (bytes : List UInt8)
  /-- What was read is passed on to the program, and sent if no prompt was seen and
  there is room. -/
  | judge (room : Bool)
  | clear
  /-- The keyboard is closed, or the program does not take what was read. -/
  | inputEnds
  deriving DecidableEq

def step (captureInput : Bool) (state : State) : Event → Option State
  | .output bytes =>
      if state.output = .reading && !bytes.isEmpty then
        some { state with
          output := .got bytes
          seen := state.seen ++ bytes
          guarding := state.guarding || completes state.seen bytes }
      else none
  | .look shown =>
      match state.output with
      | .got bytes =>
          if shown then
            some { state with
              output := .looked bytes
              redacting := state.redacting || (captureInput && looksLikePasswordPrompt bytes) }
          else some { state with output := .over }
      | _ => none
  | .tee room =>
      match state.output with
      | .looked bytes =>
          some { state with
            output := .reading
            sent := if room then state.sent ++ [⟨.stdout, bytes, []⟩] else state.sent }
      | _ => none
  | .outputEnds => if state.output = .reading then some { state with output := .over } else none
  | .input bytes =>
      if state.input = .reading && !bytes.isEmpty then
        some { state with
          input := .got bytes (if state.guarding then throughNewline bytes else [])
          guarding := state.guarding && !(bytes.any isNewline) }
      else none
  | .judge room =>
      match state.input with
      | .got bytes secret =>
          some { state with
            input := .judged bytes
            sent :=
              if captureInput && !state.redacting && room then
                state.sent ++ [⟨.stdin, bytes, secret⟩]
              else state.sent }
      | _ => none
  | .clear =>
      match state.input with
      | .judged bytes =>
          some { state with
            input := .reading
            redacting := state.redacting && !(bytes.any isNewline) }
      | _ => none
  | .inputEnds =>
      match state.input with
      | .reading | .got _ _ => some { state with input := .over }
      | _ => none

/-! ### When nothing secret is sent -/

/-- No byte that should not have been sent was. -/
def State.KeepsSecrets (state : State) : Prop :=
  ∀ teed ∈ state.sent, teed.secret = []

/-- The output thread is about to set the flag. -/
def State.AboutToMark (state : State) : Prop :=
  ∃ bytes, state.output = .got bytes ∧ looksLikePasswordPrompt bytes = true

/-- The steps that can let a secret through: a read that completes a prompt without
having its word whole, an output thread that stops before it marks the prompt, a
keyboard read judged before the prompt that it came after is marked, and a newline
from before a prompt that clears the prompt's mark.  They go wrong only where the
flag is not set for another reason. -/
def State.Watchful (state : State) : Event → Prop
  | .output bytes =>
      completes state.seen bytes = true →
        looksLikePasswordPrompt bytes = true ∨ state.redacting = true
  | .look shown => shown = false → state.AboutToMark → state.redacting = true
  | .judge _ =>
      ∀ bytes secret, state.input = .got bytes secret → secret ≠ [] →
        state.AboutToMark → state.redacting = true
  | .clear =>
      ∀ bytes, state.input = .judged bytes → bytes.any isNewline = true →
        state.guarding = true → state.AboutToMark
  | _ => True

/-- The flag is set, or is about to be. -/
def State.Covered (state : State) : Prop :=
  state.redacting = true ∨ state.AboutToMark

/-- Whatever must not be sent meets with the flag. -/
structure State.Shielded (state : State) : Prop where
  kept : state.KeepsSecrets
  guarding : state.guarding = true → state.Covered
  secret : ∀ bytes secret, state.input = .got bytes secret → secret ≠ [] → state.Covered

theorem shielded_start : start.Shielded :=
  ⟨nofun, nofun, nofun⟩

section Steps

variable {state next : State}

theorem shielded_output {bytes : List UInt8} (shielded : state.Shielded)
    (watchful : state.Watchful (.output bytes))
    (stepped : step true state (.output bytes) = some next) : next.Shielded := by
  simp only [step] at stepped
  split at stepped
  · next free =>
      obtain rfl := Option.some.inj stepped
      have reading : state.output = .reading := of_decide_eq_true (Bool.and_eq_true_iff.mp free).1
      -- the thread reads, so what was covered before is so by the flag
      have set_of_covered : state.Covered → state.redacting = true := by
        rintro (set | ⟨other, holds, -⟩)
        · exact set
        · cases reading.symm.trans holds
      constructor
      · exact shielded.kept
      · intro guarding
        rcases Bool.or_eq_true_iff.mp guarding with before | completed
        · exact .inl (set_of_covered (shielded.guarding before))
        · rcases watchful completed with whole | set
          · exact .inr ⟨bytes, rfl, whole⟩
          · exact .inl set
      · intro read secret holds hidden
        exact .inl (set_of_covered (shielded.secret read secret holds hidden))
  · cases stepped

theorem shielded_look {shown : Bool} (shielded : state.Shielded)
    (watchful : state.Watchful (.look shown))
    (stepped : step true state (.look shown) = some next) : next.Shielded := by
  simp only [step] at stepped
  split at stepped
  · next bytes holds =>
      -- what covered the state before does so by the flag now
      have covered : state.Covered → next.redacting = true := by
        split at stepped
        · obtain rfl := Option.some.inj stepped
          rintro (set | ⟨other, same, whole⟩)
          · simp [set]
          · obtain rfl := Output.got.inj (holds.symm.trans same)
            simp [whole]
        · next unshown =>
            obtain rfl := Option.some.inj stepped
            rintro (set | marking)
            · exact set
            · exact watchful (Bool.not_eq_true _ ▸ unshown) marking
      have rest : next.sent = state.sent ∧ next.guarding = state.guarding ∧
          next.input = state.input := by
        split at stepped <;> obtain rfl := Option.some.inj stepped <;> exact ⟨rfl, rfl, rfl⟩
      obtain ⟨sent, guarding, input⟩ := rest
      constructor
      · rw [State.KeepsSecrets, sent]
        exact shielded.kept
      · intro here
        exact .inl (covered (shielded.guarding (guarding ▸ here)))
      · intro read secret here hidden
        exact .inl (covered (shielded.secret read secret (input ▸ here) hidden))
  · cases stepped

theorem shielded_tee {room : Bool} (shielded : state.Shielded)
    (stepped : step true state (.tee room) = some next) : next.Shielded := by
  simp only [step] at stepped
  split at stepped
  · next bytes holds =>
      obtain rfl := Option.some.inj stepped
      have set_of_covered : state.Covered → state.redacting = true := by
        rintro (set | ⟨other, same, -⟩)
        · exact set
        · cases holds.symm.trans same
      constructor
      · intro teed member
        split at member
        · rcases List.mem_append.mp member with before | new
          · exact shielded.kept teed before
          · rw [List.mem_singleton.mp new]
        · exact shielded.kept teed member
      · exact fun guarding => .inl (set_of_covered (shielded.guarding guarding))
      · exact fun read secret here hidden =>
          .inl (set_of_covered (shielded.secret read secret here hidden))
  · cases stepped

theorem shielded_input {bytes : List UInt8} (shielded : state.Shielded)
    (stepped : step true state (.input bytes) = some next) : next.Shielded := by
  simp only [step] at stepped
  split at stepped
  · obtain rfl := Option.some.inj stepped
    constructor
    · exact shielded.kept
    · intro guarding
      exact shielded.guarding (Bool.and_eq_true_iff.mp guarding).1
    · intro read secret here hidden
      obtain ⟨rfl, rfl⟩ := Input.got.inj here
      split at hidden
      · next guarding => exact shielded.guarding guarding
      · exact (hidden rfl).elim
  · cases stepped

theorem shielded_judge {room : Bool} (shielded : state.Shielded)
    (watchful : state.Watchful (.judge room))
    (stepped : step true state (.judge room) = some next) : next.Shielded := by
  simp only [step] at stepped
  split at stepped
  · next bytes secret holds =>
      obtain rfl := Option.some.inj stepped
      constructor
      · intro teed member
        split at member
        · next unmarked =>
            rcases List.mem_append.mp member with before | new
            · exact shielded.kept teed before
            · rw [List.mem_singleton.mp new]
              by_contra hidden
              have set : state.redacting = true := by
                rcases shielded.secret bytes secret holds hidden with set | marking
                · exact set
                · exact watchful bytes secret holds hidden marking
              simp [set] at unmarked
        · exact shielded.kept teed member
      · exact shielded.guarding
      · nofun
  · cases stepped

theorem shielded_clear (shielded : state.Shielded) (watchful : state.Watchful .clear)
    (stepped : step true state .clear = some next) : next.Shielded := by
  simp only [step] at stepped
  split at stepped
  · next bytes holds =>
      obtain rfl := Option.some.inj stepped
      constructor
      · exact shielded.kept
      · intro guarding
        cases newline : bytes.any isNewline with
        | true => exact .inr (watchful bytes holds newline guarding)
        | false =>
            rcases shielded.guarding guarding with set | marking
            · left
              simp [set]
            · exact .inr marking
      · nofun
  · cases stepped

theorem shielded_outputEnds (shielded : state.Shielded)
    (stepped : step true state .outputEnds = some next) : next.Shielded := by
  simp only [step] at stepped
  split at stepped
  · next reading =>
      obtain rfl := Option.some.inj stepped
      have set_of_covered : state.Covered → state.redacting = true := by
        rintro (set | ⟨other, same, -⟩)
        · exact set
        · cases reading.symm.trans same
      constructor
      · exact shielded.kept
      · exact fun guarding => .inl (set_of_covered (shielded.guarding guarding))
      · exact fun read secret here hidden =>
          .inl (set_of_covered (shielded.secret read secret here hidden))
  · cases stepped

theorem shielded_inputEnds (shielded : state.Shielded)
    (stepped : step true state .inputEnds = some next) : next.Shielded := by
  have ended : next = { state with input := .over } := by
    simp only [step] at stepped
    split at stepped
    · exact (Option.some.inj stepped).symm
    · exact (Option.some.inj stepped).symm
    · cases stepped
  subst ended
  exact ⟨shielded.kept, shielded.guarding, nofun⟩

theorem shielded_step {event : Event} (shielded : state.Shielded)
    (watchful : state.Watchful event) (stepped : step true state event = some next) :
    next.Shielded := by
  cases event with
  | output bytes => exact shielded_output shielded watchful stepped
  | look shown => exact shielded_look shielded watchful stepped
  | tee room => exact shielded_tee shielded stepped
  | outputEnds => exact shielded_outputEnds shielded stepped
  | input bytes => exact shielded_input shielded stepped
  | judge room => exact shielded_judge shielded watchful stepped
  | clear => exact shielded_clear shielded watchful stepped
  | inputEnds => exact shielded_inputEnds shielded stepped

end Steps

open EventRuns

/-- In every run whose steps are watchful, no keystroke that follows a prompt is
sent, up to and including the next newline. -/
theorem passwords_not_recorded (events : List Event) (final : State)
    (watchful : Guarded (step true) State.Watchful start events)
    (ran : run (step true) start events = some final) : final.KeepsSecrets :=
  (invariant_of_guarded (fun _ _ _ shielded watchful stepped =>
    shielded_step shielded watchful stepped) shielded_start watchful ran).kept

def bytesOf (text : String) : List UInt8 :=
  Str.asBytes text.toList

/-- A prompt in one read, and what is typed then. -/
def prompted : List Event :=
  [.output (bytesOf "Password: "), .look true, .tee true, .input (bytesOf "s3cret\r"),
    .judge true, .clear]

theorem passwords_not_recorded_prompted :
    ∃ final, run (step true) start prompted = some final ∧ final.KeepsSecrets := by
  refine ⟨_, rfl, passwords_not_recorded prompted _ ?_ rfl⟩
  apply Guarded.cons (fun _ => .inl (by decide +kernel)) rfl
  apply Guarded.cons nofun rfl
  apply Guarded.cons trivial rfl
  apply Guarded.cons trivial rfl
  apply Guarded.cons _ rfl
  · apply Guarded.cons _ rfl
    · trivial
    · exact fun _ _ _ guarding => absurd guarding (by decide +kernel)
  · rintro bytes secret - - ⟨other, marking, -⟩
    cases marking

/-- A prompt that comes in two reads, and what is typed then. -/
def splitPrompt : List Event :=
  [.output (bytesOf "Pass"), .look true, .tee true, .output (bytesOf "word: "), .look true,
    .tee true, .input (bytesOf "s3cret\r"), .judge true]

/-- The prompt is not seen, and the password is sent. -/
theorem not_keepsSecrets_splitPrompt :
    ∃ final, run (step true) start splitPrompt = some final ∧
      ⟨.stdin, bytesOf "s3cret\r", bytesOf "s3cret\r"⟩ ∈ final.sent ∧ ¬ final.KeepsSecrets := by
  have sent : (run (step true) start splitPrompt).map State.sent =
      some [⟨.stdout, bytesOf "Pass", []⟩, ⟨.stdout, bytesOf "word: ", []⟩,
        ⟨.stdin, bytesOf "s3cret\r", bytesOf "s3cret\r"⟩] := by
    decide +kernel
  obtain ⟨final, ran, same⟩ := Option.map_eq_some_iff.mp sent
  have leaked : ⟨.stdin, bytesOf "s3cret\r", bytesOf "s3cret\r"⟩ ∈ final.sent := by
    simp [same]
  refine ⟨final, ran, leaked, fun keeps => ?_⟩
  exact absurd (keeps _ leaked) (by decide)

end Recorder

end Hermione
