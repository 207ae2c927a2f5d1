import Hermione.TokenCache

/-!
# One token per repository, minted for it

Callers for one repository, however its name is spelled, share a slot.  Whoever
mints holds its lock, so nobody else does, and the token found too old stays
there until another one was minted.
-/

namespace Hermione

open EventRuns FairLock

namespace TokenCache

@[simp]
theorem callers_put_self (cache : TokenCache) (caller : Nat) (calling : Calling) :
    (cache.put caller calling).callers caller = calling :=
  Function.update_self ..

@[simp]
theorem callers_put_of_ne {caller other : Nat} (different : other ≠ caller)
    (cache : TokenCache) (calling : Calling) :
    (cache.put caller calling).callers other = cache.callers other :=
  Function.update_of_ne different ..

@[simp]
theorem cells_put (cache : TokenCache) (caller : Nat) (calling : Calling) :
    (cache.put caller calling).cells = cache.cells :=
  rfl

@[simp]
theorem callers_write (cache : TokenCache) (key : RepoKey) (cell : Cell) :
    (cache.write key cell).callers = cache.callers :=
  rfl

@[simp]
theorem cells_write_self (cache : TokenCache) (key : RepoKey) (cell : Cell) :
    (cache.write key cell).cells key = cell :=
  Function.update_self ..

@[simp]
theorem cells_write_of_ne {key other : RepoKey} (different : other ≠ key) (cache : TokenCache)
    (cell : Cell) : (cache.write key cell).cells other = cache.cells other :=
  Function.update_of_ne different ..

theorem stance_queued (owner repo : Str) :
    (Calling.queued owner repo).stance (repoKey owner repo) = .waiting :=
  if_pos rfl

theorem stance_minting (owner repo : Str) (found : Int) :
    (Calling.minting owner repo found).stance (repoKey owner repo) = .holding :=
  if_pos rfl

/-! ### Who stands in line -/

def Lined (cache : TokenCache) : Prop :=
  ∀ caller key, Stands (cache.cells key).line caller ((cache.callers caller).stance key)

theorem lined_put {cache : TokenCache} {caller : Nat} {calling : Calling} (lined : cache.Lined)
    (own : ∀ key, Stands (cache.cells key).line caller (calling.stance key)) :
    (cache.put caller calling).Lined := by
  intro other key
  by_cases same : other = caller
  · subst same
    rw [callers_put_self]
    exact own key
  · rw [callers_put_of_ne same]
    exact lined other key

/-- A slot's line is changed without disturbing the others in it. -/
theorem lined_write {cache : TokenCache} {caller : Nat} {key : RepoKey} {cell : Cell}
    {calling : Calling} (lined : cache.Lined)
    (others : ∀ other stance, other ≠ caller → Stands (cache.cells key).line other stance →
      Stands cell.line other stance)
    (own : Stands cell.line caller (calling.stance key))
    (elsewhere : ∀ other, other ≠ key → calling.stance other = .away) :
    ((cache.write key cell).put caller calling).Lined := by
  intro other key'
  rw [cells_put]
  by_cases same : other = caller
  · subst same
    rw [callers_put_self]
    by_cases here : key' = key
    · subst here
      rwa [cells_write_self]
    · rw [elsewhere key' here]
      trivial
  · rw [callers_put_of_ne same, callers_write]
    have stands := lined other key'
    by_cases here : key' = key
    · subst here
      rw [cells_write_self]
      exact others other _ same stands
    · rwa [cells_write_of_ne here]

theorem lined_of_moved {cache next : TokenCache} {event : Event} (lined : cache.Lined)
    (moved : Moved cache event next) : next.Lined := by
  cases moved with
  | called idle => exact lined_put lined fun _ => trivial
  | @locked caller owner repo phase =>
      apply lined_write lined
      · intro other stance _ stands
        exact stands.append [caller]
      · rw [stance_queued]
        exact List.mem_append_right _ List.mem_cons_self
      · intro other different
        exact if_neg (Ne.symm different)
  | @missed caller owner repo phase first none =>
      apply lined_put lined
      intro key
      by_cases here : repoKey owner repo = key
      · subst here
        rw [stance_minting]
        exact first
      · rw [Calling.stance, if_neg here]
        trivial
  | dropped => exact lined_put lined fun _ => trivial
  | clock => exact lined
  | _ =>
      apply lined_write lined
      · intro other stance different stands
        exact stands.erase different
      · trivial
      · intro other different
        rfl

theorem lined_start (now : Int) : (start now).Lined := by
  intro caller key
  trivial

/-- Whoever mints holds the lock of its repository. -/
theorem holds_of_inFlight {cache : TokenCache} (lined : cache.Lined) {key : RepoKey}
    {caller : Nat} (flying : cache.InFlight key caller) :
    Stands (cache.cells key).line caller .holding := by
  obtain ⟨owner, repo, found, phase, rfl⟩ := flying
  have stands := lined caller (repoKey owner repo)
  rwa [phase, stance_minting] at stands

theorem single_of_lined {cache : TokenCache} (lined : cache.Lined) : cache.SingleMint := by
  intro key first second one two
  exact holder_unique (holds_of_inFlight lined one) (holds_of_inFlight lined two)

/-! ### What lies in a slot -/

/-- GitHub minted this token for a caller that wanted one of the repository. -/
def MintedFor (now : Int) (events : List Event) (key : RepoKey) (minted : Minted) : Prop :=
  ∃ before after cache caller, events = before ++ .minted caller (.ok minted) :: after ∧
    run step (start now) before = some cache ∧ cache.InFlight key caller

theorem MintedFor.append {now : Int} {events : List Event} {key : RepoKey} {minted : Minted}
    (source : MintedFor now events key minted) (later : List Event) :
    MintedFor now (events ++ later) key minted := by
  obtain ⟨before, after, cache, caller, rfl, rest⟩ := source
  exact ⟨before, after ++ later, cache, caller, by simp, rest⟩

/-- The tokens after an event are those before it and the one just minted. -/
theorem minted_of_moved {cache next : TokenCache} {event : Event} {key : RepoKey}
    {minted : Minted} (moved : Moved cache event next)
    (holds : (next.cells key).minted = some minted) :
    (cache.cells key).minted = some minted ∨
      ∃ caller, event = .minted caller (.ok minted) ∧ cache.InFlight key caller := by
  have untouched : ∀ {other : RepoKey} {cell : Cell},
      ((Function.update cache.cells other cell) key).minted = some minted →
      cell.minted = (cache.cells other).minted → (cache.cells key).minted = some minted := by
    intro other cell written same
    by_cases here : key = other
    · rw [here, Function.update_self] at written
      rw [here, ← same, written]
    · rwa [Function.update_of_ne here] at written
  cases moved with
  | @minted caller owner repo found fresh phase =>
      change ((Function.update cache.cells _ _) key).minted = some minted at holds
      by_cases here : key = repoKey owner repo
      · rw [here, Function.update_self] at holds
        cases holds
        exact .inr ⟨caller, rfl, owner, repo, found, phase, here.symm⟩
      · rw [Function.update_of_ne here] at holds
        exact .inl holds
  | locked phase => exact .inl (untouched holds rfl)
  | taken phase usable => exact .inl (untouched holds rfl)
  | failed phase => exact .inl (untouched holds rfl)
  | left => exact .inl (untouched holds rfl)
  | _ => exact .inl holds

theorem mintedFor_of_run {now : Int} {events : List Event} {cache : TokenCache} {key : RepoKey}
    {minted : Minted} (ran : run step (start now) events = some cache)
    (holds : (cache.cells key).minted = some minted) : MintedFor now events key minted := by
  have kept : ∀ key minted, (cache.cells key).minted = some minted →
      MintedFor now events key minted := by
    apply history_of_run (fun past (cache : TokenCache) => ∀ key minted,
      (cache.cells key).minted = some minted → MintedFor now past key minted) _ _ ran
    · intro past cache event next before sources stepped key minted holds
      rcases minted_of_moved (moved_of_step stepped) holds with earlier | ⟨caller, rfl, flying⟩
      · exact (sources key minted earlier).append _
      · exact ⟨past, [], cache, caller, rfl, before, flying⟩
    · intro key minted holds
      cases holds
  exact kept key minted holds

/-! ### Tokens found too old -/

/-- A slot's token, if there is one, is not to be handed out from some time on. -/
def StaleSince (cache : TokenCache) (key : RepoKey) (since : Int) : Prop :=
  ∀ minted, (cache.cells key).minted = some minted → minted.expiresAt - EXPIRY_MARGIN ≤ since

/-- What a caller that mints found in its slot still lies there. -/
def FoundStale (cache : TokenCache) : Prop :=
  ∀ caller owner repo found, cache.callers caller = .minting owner repo found →
    cache.StaleSince (repoKey owner repo) found

/-- The event is a token minted for a repository. -/
def Mints (cache : TokenCache) (key : RepoKey) (event : Event) : Prop :=
  ∃ caller minted, event = .minted caller (.ok minted) ∧ cache.InFlight key caller

theorem stale_of_moved {cache next : TokenCache} {event : Event} {key : RepoKey} {since : Int}
    (stale : cache.StaleSince key since) (other : ¬ cache.Mints key event)
    (moved : Moved cache event next) : next.StaleSince key since := by
  intro minted holds
  rcases minted_of_moved moved holds with before | ⟨caller, rfl, flying⟩
  · exact stale minted before
  · exact absurd ⟨caller, minted, rfl, flying⟩ other

/-- A token is not usable if there is none or it is found too old. -/
theorem stale_of_usable {cache : TokenCache} {key : RepoKey} {since : Int}
    (unusable : (cache.cells key).usable since = none) : cache.StaleSince key since := by
  intro minted holds
  rw [Cell.usable, holds, Option.filter_eq_none_iff] at unusable
  have expired := unusable minted rfl
  rw [decide_eq_true_iff] at expired
  omega

theorem usable_of_stale {cache : TokenCache} {key : RepoKey} {since now : Int}
    (stale : cache.StaleSince key since) (later : since ≤ now) :
    (cache.cells key).usable now = none := by
  rw [Cell.usable, Option.filter_eq_none_iff]
  intro minted holds
  have expired := stale minted holds
  rw [decide_eq_true_iff]
  omega

/-- A caller that mints after an event did so before, or just found nothing usable. -/
theorem minting_of_moved {cache next : TokenCache} {event : Event} {caller : Nat}
    {owner repo : Str} {found : Int} (moved : Moved cache event next)
    (phase : next.callers caller = .minting owner repo found) :
    (cache.callers caller = .minting owner repo found ∧ ∀ answer, event ≠ .minted caller answer) ∨
      next.cells = cache.cells ∧ (cache.cells (repoKey owner repo)).usable found = none := by
  have others : ∀ {other : Nat} {calling : Calling},
      Function.update cache.callers other calling caller = .minting owner repo found →
      calling = .minting owner repo found ∨
        cache.callers caller = .minting owner repo found ∧ caller ≠ other := by
    intro other calling told
    by_cases same : caller = other
    · subst same
      rw [Function.update_self] at told
      exact .inl told
    · rw [Function.update_of_ne same] at told
      exact .inr ⟨told, same⟩
  cases moved with
  | missed phase' first none =>
      rcases others phase with new | ⟨before, -⟩
      · cases new
        exact .inr ⟨rfl, none⟩
      · exact .inl ⟨before, fun _ => nofun⟩
  | minted phase' =>
      rcases others phase with new | ⟨before, different⟩
      · cases new
      · refine .inl ⟨before, ?_⟩
        rintro answer ⟨⟩
        exact different rfl
  | failed phase' =>
      rcases others phase with new | ⟨before, different⟩
      · cases new
      · refine .inl ⟨before, ?_⟩
        rintro answer ⟨⟩
        exact different rfl
  | clock => exact .inl ⟨phase, fun _ => nofun⟩
  | _ =>
      rcases others phase with new | ⟨before, -⟩
      · cases new
      · exact .inl ⟨before, fun _ => nofun⟩

theorem foundStale_of_moved {cache next : TokenCache} {event : Event} (lined : cache.Lined)
    (stale : cache.FoundStale) (moved : Moved cache event next) : next.FoundStale := by
  intro caller owner repo found phase
  rcases minting_of_moved moved phase with ⟨before, unanswered⟩ | ⟨cells, unusable⟩
  · apply stale_of_moved (stale caller owner repo found before) _ moved
    rintro ⟨other, minted, rfl, flying⟩
    have same := single_of_lined lined _ other caller flying ⟨owner, repo, found, before, rfl⟩
    exact unanswered (.ok minted) (by rw [same])
  · intro minted holds
    rw [cells] at holds
    exact stale_of_usable unusable minted holds

/-! ### Whole runs -/

theorem lined_of_run {now : Int} {events : List Event} {cache : TokenCache}
    (ran : run step (start now) events = some cache) : cache.Lined ∧ cache.FoundStale := by
  apply invariant_of_run _ _ ran
  · intro cache event next holds stepped
    have moved := moved_of_step stepped
    exact ⟨lined_of_moved holds.1 moved, foundStale_of_moved holds.1 holds.2 moved⟩
  · refine ⟨lined_start now, ?_⟩
    intro caller owner repo found phase
    cases phase

/-- Until a token was minted for its repository, a slot found stale stays so. -/
theorem stale_of_run {cache after : TokenCache} {key : RepoKey} {since : Int}
    {later : List Event} (stale : cache.StaleSince key since)
    (unminted : Guarded step (fun cache event => ¬ cache.Mints key event) cache later)
    (ran : run step cache later = some after) : after.StaleSince key since := by
  have preserved : ∀ cache event next, StaleSince cache key since → ¬ cache.Mints key event →
      step cache event = some next → next.StaleSince key since := by
    intro cache event next stale other stepped
    exact stale_of_moved stale other (moved_of_step stepped)
  exact invariant_of_guarded preserved stale unminted ran

/-- A caller that is answered from its slot: the token was minted for the repository
it named, and is good for more than the margin. -/
theorem taken_spec {now : Int} {events : List Event} {cache next : TokenCache} {caller : Nat}
    {owner repo token : Str} (ran : run step (start now) events = some cache)
    (stepped : step cache (.look caller) = some next)
    (answered : next.callers caller = .returned owner repo (.ok token)) :
    ∃ minted, minted.token = token ∧ MintedFor now events (repoKey owner repo) minted ∧
      EXPIRY_MARGIN < minted.expiresAt - cache.now := by
  cases moved_of_step stepped with
  | @taken _ owner' repo' minted phase' usable =>
      rw [callers_put_self] at answered
      cases answered
      obtain ⟨holds, good⟩ := Option.filter_eq_some_iff.mp usable
      rw [decide_eq_true_iff] at good
      exact ⟨minted, rfl, mintedFor_of_run ran holds, by omega⟩
  | missed phase' first none =>
      rw [callers_put_self] at answered
      cases answered

/-- A caller that looks at a stale slot mints. -/
theorem look_of_stale {cache next : TokenCache} {caller : Nat} {owner repo : Str} {since : Int}
    (stale : cache.StaleSince (repoKey owner repo) since) (later : since ≤ cache.now)
    (phase : cache.callers caller = .queued owner repo)
    (stepped : step cache (.look caller) = some next) :
    next.callers caller = .minting owner repo cache.now := by
  cases moved_of_step stepped with
  | taken phase' usable =>
      rw [phase] at phase'
      cases phase'
      rw [usable_of_stale stale later] at usable
      cases usable
  | missed phase' first none =>
      rw [phase] at phase'
      cases phase'
      exact callers_put_self ..

/-- In every run: one mint at a time for a repository, however it is spelled; what
is answered from a slot was minted for that repository and has more than the margin
left; and a failed mint leaves every slot's token as it was, so that, until a token
was minted for the repository, whoever looks next mints again (unless the clock was
set back to before the last look). -/
theorem token_cache_contract {now : Int} {events : List Event} {cache : TokenCache}
    (ran : run step (start now) events = some cache) :
    cache.SingleMint ∧
      (∀ caller owner repo token next, step cache (.look caller) = some next →
        next.callers caller = .returned owner repo (.ok token) →
        ∃ minted, minted.token = token ∧ MintedFor now events (repoKey owner repo) minted ∧
          EXPIRY_MARGIN < minted.expiresAt - cache.now) ∧
      ∀ caller owner repo found error next,
        cache.callers caller = .minting owner repo found →
        step cache (.minted caller (.error error)) = some next →
        next.callers caller = .returned owner repo (.error error) ∧
          (∀ key, (next.cells key).minted = (cache.cells key).minted) ∧
          ∀ later after, run step next later = some after →
            Guarded step (fun cache event => ¬ cache.Mints (repoKey owner repo) event) next later →
            found ≤ after.now →
            ∀ other owner' repo' afterwards, repoKey owner' repo' = repoKey owner repo →
              after.callers other = .queued owner' repo' →
              step after (.look other) = some afterwards →
              afterwards.callers other = .minting owner' repo' after.now := by
  obtain ⟨lined, stale⟩ := lined_of_run ran
  refine ⟨single_of_lined lined, ?_, ?_⟩
  · intro caller owner repo token next stepped answered
    exact taken_spec ran stepped answered
  · intro caller owner repo found error next phase stepped
    have untouched : ∀ key, (next.cells key).minted = (cache.cells key).minted := by
      intro key
      cases moved_of_step stepped with
      | @failed _ owner' repo' _ _ phase' =>
          by_cases here : key = repoKey owner' repo'
          · subst here
            rw [cells_put, cells_write_self]
            rfl
          · rw [cells_put, cells_write_of_ne here]
    refine ⟨?_, untouched, ?_⟩
    · cases moved_of_step stepped with
      | failed phase' =>
          rw [phase] at phase'
          cases phase'
          exact callers_put_self ..
    · intro later after continued unminted forward other owner' repo' afterwards same queued looked
      have before : next.StaleSince (repoKey owner repo) found := by
        intro minted holds
        rw [untouched] at holds
        exact stale caller owner repo found phase minted holds
      have still := stale_of_run before unminted continued
      rw [← same] at still
      exact look_of_stale still forward queued looked

/-- The second caller, spelling the repository in another way, waits for a mint that
fails, and then mints itself. -/
theorem token_cache_contract_failed :
    ∃ cache next after,
      run step (start 0) [.call 0 "Acme".toList "CS101".toList, .lock 0, .look 0,
        .call 1 "acme".toList "cs101".toList, .lock 1] = some cache ∧
      step cache (.minted 0 (.error "rate limited".toList)) = some next ∧
      step next (.look 1) = some after ∧
      after.callers 1 = .minting "acme".toList "cs101".toList 0 := by
  have ran : ∃ cache next after,
      run step (start 0) [.call 0 "Acme".toList "CS101".toList, .lock 0, .look 0,
        .call 1 "acme".toList "cs101".toList, .lock 1] = some cache ∧
      cache.callers 0 = .minting "Acme".toList "CS101".toList 0 ∧
      step cache (.minted 0 (.error "rate limited".toList)) = some next ∧
      next.callers 1 = .queued "acme".toList "cs101".toList ∧ next.now = 0 ∧
      step next (.look 1) = some after :=
    ⟨_, _, _, rfl, rfl, rfl, rfl, rfl, rfl⟩
  obtain ⟨cache, next, after, ran, phase, failed, queued, now, looked⟩ := ran
  refine ⟨cache, next, after, ran, failed, looked, ?_⟩
  obtain ⟨-, -, mintsAgain⟩ := token_cache_contract ran
  obtain ⟨-, -, next_look⟩ := mintsAgain 0 _ _ 0 _ next phase failed
  have minting := next_look [] next rfl trivial (by rw [now]) 1 _ _ after (by decide) queued looked
  rwa [now] at minting

/-- An old token expires, another caller's mint fails, and the clock is set back. -/
def setBack : List Event × Event × List Event :=
  ([.call 0 "acme".toList "cs101".toList, .lock 0, .look 0,
      .minted 0 (.ok ⟨"old".toList, 100 * 10 ^ 9⟩), .clock (50 * 10 ^ 9),
      .call 1 "acme".toList "cs101".toList, .lock 1, .look 1],
    .minted 1 (.error "rate limited".toList),
    [.call 2 "acme".toList "cs101".toList, .lock 2, .clock (30 * 10 ^ 9)])

/-- The mint fails and nothing is minted since, and yet who looks next is answered. -/
theorem not_mints_again_setBack :
    ∃ cache next after afterwards,
      run step (start 0) setBack.1 = some cache ∧
      cache.callers 1 = .minting "acme".toList "cs101".toList (50 * 10 ^ 9) ∧
      step cache setBack.2.1 = some next ∧
      run step next setBack.2.2 = some after ∧
      Guarded step (fun cache event => ¬ cache.Mints (repoKey "acme".toList "cs101".toList) event)
        next setBack.2.2 ∧
      after.callers 2 = .queued "acme".toList "cs101".toList ∧
      step after (.look 2) = some afterwards ∧
      afterwards.callers 2 = .returned "acme".toList "cs101".toList (.ok "old".toList) := by
  refine ⟨_, _, _, _, rfl, rfl, rfl, rfl, ?_, rfl, rfl, rfl⟩
  apply guarded_of_forall
  rintro event member cache ⟨caller, minted, rfl, -⟩
  simp [setBack] at member

end TokenCache

end Hermione
