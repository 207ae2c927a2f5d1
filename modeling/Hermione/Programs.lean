import Mathlib.Data.List.Infix
import Mathlib.Logic.Relation

/-!
# Programs that ask their surroundings

A program asks and goes on with the answer, or is done.  Nothing is said about
who answers: a statement about a program is about all answers that some relation
allows.  It says what is asked, knowing what was asked and answered before, and
what comes out.

Programs that run side by side share a history.  Each is judged alone, whatever the
others add as long as they keep to their terms; then all of them together do.
-/

universe u v w

/-- A program over questions with answers of their own types. -/
inductive Program (Question : Type u) (Answer : Question → Type w) (α : Type w) where
  | done (value : α)
  | ask (question : Question) (rest : Answer question → Program Question Answer α)

namespace Program

variable {Question : Type u} {Answer : Question → Type w} {α β : Type w}

def bind : Program Question Answer α → (α → Program Question Answer β) →
    Program Question Answer β
  | .done value, next => next value
  | .ask question rest, next => .ask question fun answer => (rest answer).bind next

instance : Monad (Program Question Answer) where
  pure := .done
  bind := bind

/-- One question. -/
def question (question : Question) : Program Question Answer (Answer question) :=
  .ask question .done

/-- A program whose questions are answered by a world that each may change. -/
def handle {World : Type v} (answer : (question : Question) → World → World × Answer question) :
    Program Question Answer α → World → World × α
  | .done value, world => (world, value)
  | .ask question rest, world =>
      let (world, answered) := answer question world
      (rest answered).handle answer world

/-- What was asked, and what was answered. -/
abbrev History (Question : Type u) (Answer : Question → Type w) :=
  List ((question : Question) × Answer question)

/-- The terms on which a program runs: what it may be answered, what it may ask, and
what a history is known to be that others add to as well. -/
structure Terms (Question : Type u) (Answer : Question → Type w) where
  rely : History Question Answer → Prop
  allowed : History Question Answer → (question : Question) → Answer question → Prop
  asks : History Question Answer → Question → Prop

/-- With answers that are allowed, the program only asks what it may, and what comes
out is as it should be; whatever others ask before it goes on. -/
def Ensures (terms : Terms Question Answer) (returns : History Question Answer → α → Prop) :
    History Question Answer → Program Question Answer α → Prop
  | past, .done value => ∀ now, past <+: now → terms.rely now → returns now value
  | past, .ask question rest =>
      ∀ now, past <+: now → terms.rely now →
        terms.asks now question ∧ ∀ answer, terms.allowed now question answer →
          Ensures terms returns (now ++ [⟨question, answer⟩]) (rest answer)

section Rules

variable {terms : Terms Question Answer} {past later : History Question Answer}

theorem ensures_pure {returns : History Question Answer → α → Prop} {value : α}
    (holds : ∀ now, past <+: now → terms.rely now → returns now value) :
    Ensures terms returns past (pure value : Program Question Answer α) :=
  holds

/-- What is asked and answered is in the history from then on. -/
theorem ensures_question {question : Question}
    (may : ∀ now, past <+: now → terms.rely now → terms.asks now question) :
    Ensures terms (fun later answer => ⟨question, answer⟩ ∈ later) past
      (Program.question question : Program Question Answer _) := by
  intro now before relied
  refine ⟨may now before relied, fun answer _ => ?_⟩
  intro later after _
  exact after.subset (List.mem_append_right _ List.mem_cons_self)

/-- Others may have added to the history already. -/
theorem Ensures.extend {program : Program Question Answer α}
    {returns : History Question Answer → α → Prop}
    (ensures : Ensures terms returns past program) (onward : past <+: later) :
    Ensures terms returns later program := by
  cases program with
  | done value => exact fun now after relied => ensures now (onward.trans after) relied
  | ask question rest => exact fun now after relied => ensures now (onward.trans after) relied

/-- What may be asked on some terms may be asked on wider ones. -/
theorem Ensures.permit {program : Program Question Answer α}
    {asksMore : History Question Answer → Question → Prop}
    {returns : History Question Answer → α → Prop}
    (ensures : Ensures terms returns past program)
    (asked : ∀ now question, terms.asks now question → asksMore now question) :
    Ensures { terms with asks := asksMore } returns past program := by
  induction program generalizing past with
  | done value => exact ensures
  | ask question rest ih =>
      intro now before relied
      obtain ⟨may, answered⟩ := ensures now before relied
      exact ⟨asked now question may, fun answer fine => ih answer (answered answer fine)⟩

/-- A sequence does what is asked of it if what comes after the first program does. -/
theorem ensures_bind {program : Program Question Answer α}
    {next : α → Program Question Answer β} {between : History Question Answer → α → Prop}
    {returns : History Question Answer → β → Prop}
    (first : Ensures terms between past program)
    (rest : ∀ later value, past <+: later → terms.rely later → between later value →
      Ensures terms returns later (next value)) :
    Ensures terms returns past (program >>= next) := by
  induction program generalizing past with
  | done value =>
      change Ensures terms returns past (next value)
      have onward (now : History Question Answer) (before : past <+: now)
          (relied : terms.rely now) : Ensures terms returns now (next value) :=
        rest now value before relied (first now before relied)
      cases following : next value with
      | done result =>
          intro now before relied
          have here := onward now before relied
          rw [following] at here
          exact here now (List.prefix_refl now) relied
      | ask question answered =>
          intro now before relied
          have here := onward now before relied
          rw [following] at here
          exact here now (List.prefix_refl now) relied
  | ask question answered ih =>
      intro now before relied
      obtain ⟨may, onward⟩ := first now before relied
      refine ⟨may, fun answer fine => ih answer (onward answer fine) ?_⟩
      intro later value after
      exact rest later value (before.trans ((List.prefix_append _ _).trans after))

end Rules

end Program

/-- Programs that run side by side, each for its job, and what all of them asked. -/
structure Pool (Job : Type*) (Question : Type u) (Answer : Question → Type w) where
  past : Program.History Question Answer
  running : List (Job × Program Question Answer PUnit.{w + 1})

namespace Pool

open Program

variable {Job : Type*} {Question : Type u} {Answer : Question → Type w}
variable (allowed : History Question Answer → (question : Question) → Answer question → Prop)
  (program : Job → Program Question Answer PUnit.{w + 1})

def start : Pool Job Question Answer :=
  { past := [], running := [] }

/-- A job is begun, or one goes on with the answer to what it asks. -/
inductive Step : Pool Job Question Answer → Pool Job Question Answer → Prop where
  | begin (pool : Pool Job Question Answer) (job : Job) :
      Step pool { pool with running := pool.running ++ [(job, program job)] }
  | ask {past : History Question Answer} {job : Job} {question : Question}
      {rest : Answer question → Program Question Answer PUnit.{w + 1}}
      (before after : List (Job × Program Question Answer PUnit.{w + 1}))
      (answer : Answer question) (fine : allowed past question answer) :
      Step ⟨past, before ++ (job, .ask question rest) :: after⟩
        ⟨past ++ [⟨question, answer⟩], before ++ (job, rest answer) :: after⟩

/-- The jobs are begun at any time and go on in any order. -/
def Reached : Pool Job Question Answer → Prop :=
  Relation.ReflTransGen (Step allowed program) start

variable {allowed program} in
theorem Reached.begin {pool : Pool Job Question Answer} (reached : Reached allowed program pool)
    (job : Job) {doing : Program Question Answer PUnit.{w + 1}} (does : program job = doing) :
    Reached allowed program ⟨pool.past, pool.running ++ [(job, doing)]⟩ :=
  does ▸ reached.tail (.begin pool job)

variable {allowed program} in
theorem Reached.ask {past : History Question Answer} {job : Job} {question : Question}
    {rest : Answer question → Program Question Answer PUnit.{w + 1}}
    {before after : List (Job × Program Question Answer PUnit.{w + 1})}
    (reached : Reached allowed program ⟨past, before ++ (job, .ask question rest) :: after⟩)
    {answer : Answer question} {doing : Program Question Answer PUnit.{w + 1}}
    (does : rest answer = doing) (fine : allowed past question answer) :
    Reached allowed program ⟨past ++ [⟨question, answer⟩], before ++ (job, doing) :: after⟩ :=
  does ▸ reached.tail (.ask before after answer fine)

variable (asks : Job → History Question Answer → Question → Prop)

/-- Each question was one that some job may ask, and was answered as allowed. -/
def Sound (past : History Question Answer) : Prop :=
  ∀ before asked after, past = before ++ asked :: after →
    (∃ job, asks job before asked.1) ∧ allowed before asked.1 asked.2

/-- The terms of a job among the others. -/
def terms (job : Job) : Terms Question Answer :=
  { rely := Sound allowed asks, allowed, asks := asks job }

variable {allowed program asks} {pool : Pool Job Question Answer}

theorem sound_concat {past : History Question Answer} {job : Job} {question : Question}
    {answer : Answer question} (sound : Sound allowed asks past) (may : asks job past question)
    (fine : allowed past question answer) :
    Sound allowed asks (past ++ [⟨question, answer⟩]) := by
  intro before asked after split
  rcases List.eq_nil_or_concat after with rfl | ⟨initial, last, rfl⟩
  · obtain ⟨rfl, same⟩ := List.append_inj' split rfl
    obtain rfl := List.singleton_injective same
    exact ⟨⟨job, may⟩, fine⟩
  · rw [List.concat_eq_append, ← List.cons_append, ← List.append_assoc] at split
    obtain ⟨earlier, -⟩ := List.append_inj' split rfl
    exact sound before asked initial earlier

/-- Jobs that keep to the terms keep the history sound for each other. -/
theorem ensures_of_reached
    (kept : ∀ job, Ensures (terms allowed asks job) (fun _ _ => True) [] (program job))
    (reached : Reached allowed program pool) :
    Sound allowed asks pool.past ∧ ∀ job ∈ pool.running,
      Ensures (terms allowed asks job.1) (fun _ _ => True) pool.past job.2 := by
  induction reached with
  | refl => exact ⟨fun before asked after split => by simp [start] at split, nofun⟩
  | tail _ stepped ih =>
      cases stepped with
      | begin pool job =>
          refine ⟨ih.1, List.forall_mem_append.mpr ⟨ih.2, ?_⟩⟩
          rw [List.forall_mem_singleton]
          exact (kept job).extend List.nil_prefix
      | @ask past job question rest before after answer fine =>
          obtain ⟨sound, ensures⟩ := ih
          obtain ⟨may, onward⟩ := ensures (job, .ask question rest) (by simp) past
            (List.prefix_refl past) sound
          refine ⟨sound_concat sound may fine, ?_⟩
          intro other member
          rcases List.mem_append.mp member with there | here
          · exact (ensures other (List.mem_append_left _ there)).extend (List.prefix_append _ _)
          · rcases List.mem_cons.mp here with rfl | there
            · exact onward answer fine
            · have known := ensures other (List.mem_append_right _ (List.mem_cons_of_mem _ there))
              exact known.extend (List.prefix_append _ _)

/-- Whichever job goes on next asks what it may. -/
theorem asks_of_reached
    (kept : ∀ job, Ensures (terms allowed asks job) (fun _ _ => True) [] (program job))
    (reached : Reached allowed program pool) {job : Job} {question : Question}
    {rest : Answer question → Program Question Answer PUnit.{w + 1}}
    (next : (job, .ask question rest) ∈ pool.running) : asks job pool.past question := by
  obtain ⟨sound, ensures⟩ := ensures_of_reached kept reached
  exact (ensures _ next pool.past (List.prefix_refl _) sound).1

end Pool
