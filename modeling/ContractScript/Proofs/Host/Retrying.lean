/-
Requests that are tried again.

A request whose response means no success is tried again after a pause, until the retries are used
up. So what is done about a request depends on where the first successful response is: this many
tries are made, if there are so many, and otherwise all that are allowed. Between two tries there is
one pause, and the pauses double.

A run of tries goes through rounds, each a try without success and the pause after it, and then
comes to a last try. Why it is the last one is one of three things: the response is a success, or no
try is left, or the next pause cannot be made. The third does not happen where doubling stays in the
range of numbers and of what waits.
-/
import Mathlib
import ContractScript.Http

set_option autoImplicit false

namespace ContractScript.Http

/-! ## Responses -/

/-- A response with a success status. -/
def Response.Succeeds : Response → Prop
  | .answer status _ => 200 ≤ status ∧ status < 300
  | .failure _ => False

/-- What a response means for a request if it is no success: its status, with the address and the
first two hundred characters of the body, or what went wrong with the connection. -/
def Response.complaint (url : String) : Response → Failure
  | .answer status text => .status status url (String.ofList (text.toList.take 200))
  | .failure text => .connection text

section Responses

variable {url : String} {r : Response}

theorem Response.outcome_of_succeeds (url : String) (success : r.Succeeds) :
    ∃ status text, r = .answer status text ∧ r.outcome url = .ok text := by
  cases r with
  | answer status text =>
    have within : isSuccess status = true := by
      simpa [isSuccess, Response.Succeeds] using success
    refine ⟨status, text, rfl, ?_⟩
    rw [Response.outcome, if_pos within]
  | failure text => exact success.elim

theorem Response.outcome_of_not_succeeds (url : String) (refused : ¬r.Succeeds) :
    r.outcome url = .error (r.complaint url) := by
  cases r with
  | answer status text =>
    have outside : ¬isSuccess status = true := by
      simpa [isSuccess, Response.Succeeds] using refused
    rw [Response.outcome, if_neg outside]
    rfl
  | failure text => rfl

end Responses

/-- The position of the first successful response, counted from one; infinite if there is none. -/
noncomputable def firstSuccess (respond : Nat → Response) : ℕ∞ :=
  ⨅ (i : Nat) (_ : (respond i).Succeeds), ((i + 1 : Nat) : ℕ∞)

section FirstSuccess

variable {respond : Nat → Response} {k : Nat}

/-- No response was successful up to one, and that one is not either. -/
theorem not_succeeds_through (before : ∀ i < k, ¬(respond i).Succeeds)
    (refused : ¬(respond k).Succeeds) : ∀ i ≤ k, ¬(respond i).Succeeds := by
  intro i there
  rcases Nat.lt_or_eq_of_le there with earlier | rfl
  · exact before i earlier
  · exact refused

theorem firstSuccess_eq (success : (respond k).Succeeds)
    (before : ∀ i < k, ¬(respond i).Succeeds) : firstSuccess respond = ((k + 1 : Nat) : ℕ∞) := by
  refine le_antisymm (iInf₂_le k success) (le_iInf₂ fun i there => ?_)
  have later : k ≤ i := by
    by_contra earlier
    exact before i (not_le.mp earlier) there
  exact_mod_cast Nat.succ_le_succ later

theorem lt_firstSuccess (before : ∀ i ≤ k, ¬(respond i).Succeeds) :
    ((k + 1 : Nat) : ℕ∞) < firstSuccess respond := by
  -- there may be no success at all, so the next position is the bound
  refine lt_of_lt_of_le (b := ((k + 2 : Nat) : ℕ∞)) (by exact_mod_cast Nat.lt_succ_self _) ?_
  refine le_iInf₂ fun i there => ?_
  have later : k < i := by
    by_contra earlier
    exact before i (not_lt.mp earlier) there
  exact_mod_cast Nat.succ_le_succ later

end FirstSuccess

/-! ## Pauses -/

/-- The first pause, doubled a number of times. -/
def Backoff.doubled : Backoff → Nat → Backoff
  | .whole seconds, times => .whole (seconds * 2 ^ times)
  | .real seconds, times => .real (seconds * Number.ofInt (2 ^ times))

/-- The first pause cannot be doubled that often: the power of two by which a real number is
multiplied is too large to become one itself. -/
def Backoff.Overflows : Backoff → Nat → Prop
  | .whole _, _ => False
  | .real _, times => Number.isInfinite (Number.ofInt (2 ^ times)) = true

/-- The pause after a number of tries can be made: it does not overflow, and what waits does not
refuse it. -/
def Backoff.Fits (backoff : Backoff) (wait : Waiting) (tries : Nat) : Prop :=
  ¬backoff.Overflows tries ∧ wait (backoff.doubled tries) = none

/-- Why the pause after a number of tries cannot be made. -/
inductive Backoff.Refused (backoff : Backoff) (wait : Waiting) (tries : Nat) : PauseError → Prop
  | tooLarge (overflows : backoff.Overflows tries) : Refused backoff wait tries .tooLarge
  | waiting {e : PauseError} (number : ¬backoff.Overflows tries)
      (refuses : wait (backoff.doubled tries) = some e) : Refused backoff wait tries e

theorem coe_powTwo (n : Nat) : ((Number.powTwo n : Nat) : Int) = 2 ^ n := by
  unfold Number.powTwo
  exact_mod_cast rfl

section Pauses

variable {backoff : Backoff} {wait : Waiting} {tries : Nat}

/-- A pause can be made, or it is refused for some reason. -/
theorem Backoff.fits_or_refused (backoff : Backoff) (wait : Waiting) (tries : Nat) :
    backoff.Fits wait tries ∨ ∃ e, backoff.Refused wait tries e := by
  by_cases overflows : backoff.Overflows tries
  · exact .inr ⟨_, .tooLarge overflows⟩
  · cases answer : wait (backoff.doubled tries) with
    | none => exact .inl ⟨overflows, answer⟩
    | some e => exact .inr ⟨e, .waiting overflows answer⟩

theorem doubled?_of_overflows (overflows : backoff.Overflows tries) :
    backoff.doubled? tries = none := by
  cases backoff with
  | whole seconds => exact overflows.elim
  | real seconds =>
    have infinite : Number.isInfinite (Number.ofInt (2 ^ tries)) = true := overflows
    rw [Backoff.doubled?, coe_powTwo, seconds?, if_pos infinite]
    rfl

theorem doubled?_eq (number : ¬backoff.Overflows tries) :
    backoff.doubled? tries = some (backoff.doubled tries) := by
  cases backoff with
  | whole seconds => rw [Backoff.doubled?, coe_powTwo, Backoff.doubled]
  | real seconds =>
    have finite : ¬Number.isInfinite (Number.ofInt (2 ^ tries)) = true := number
    rw [Backoff.doubled?, coe_powTwo, seconds?, if_neg finite]
    rfl

theorem pause_of_fits (fits : backoff.Fits wait tries) :
    pause wait tries backoff = .ok (backoff.doubled tries) := by
  unfold pause
  rw [doubled?_eq fits.1]
  dsimp only
  rw [fits.2]

theorem pause_of_refused {e : PauseError} (refused : backoff.Refused wait tries e) :
    pause wait tries backoff = .error e := by
  unfold pause
  cases refused with
  | tooLarge overflows => rw [doubled?_of_overflows overflows]
  | waiting number refuses =>
    rw [doubled?_eq number]
    dsimp only
    rw [refuses]

/-- A pause that is refused does not fit. -/
theorem Backoff.Refused.not_fits {e : PauseError} (refused : backoff.Refused wait tries e) :
    ¬backoff.Fits wait tries := by
  rintro ⟨number, taken⟩
  cases refused with
  | tooLarge overflows => exact number overflows
  | waiting _ refuses => cases taken.symm.trans refuses

/-- A pause is refused for one reason. -/
theorem Backoff.Refused.unique {e e' : PauseError} (refused : backoff.Refused wait tries e)
    (again : backoff.Refused wait tries e') : e = e' :=
  Except.error.inj ((pause_of_refused refused).symm.trans (pause_of_refused again))

end Pauses

/-- The clock of the system takes whole seconds unless they are negative or, in nanoseconds, overflow. -/
theorem Waiting.byClock_whole {seconds : Int} :
    Waiting.byClock (.whole seconds) = none ↔ 0 ≤ seconds ∧ seconds * 10 ^ 9 < 2 ^ 63 := by
  have bound : ((Number.powTwo clockBits : Nat) : Int) = 2 ^ 63 := coe_powTwo clockBits
  have unit : ((Number.powTen 9 : Nat) : Int) = 10 ^ 9 := rfl
  simp only [Waiting.byClock, bound, unit, Bool.or_eq_true, decide_eq_true_eq]
  split
  · simp only [reduceCtorEq, false_iff]
    omega
  · split
    · simp only [reduceCtorEq, false_iff]
      omega
    · simp only [true_iff]
      omega

/-- A first pause of whole seconds is negative, or it fits until it overflows. -/
theorem Backoff.fits_whole {seconds : Int} {times : Nat} :
    (Backoff.whole seconds).Fits .byClock times
      ↔ 0 ≤ seconds ∧ seconds * 2 ^ times * 10 ^ 9 < 2 ^ 63 := by
  have power : (0 : Int) < 2 ^ times := by positivity
  rw [← mul_nonneg_iff_of_pos_right power]
  exact (and_iff_right not_false).trans Waiting.byClock_whole

/-! ## Rounds -/

/-- The moves of some rounds, from one with a given number on: a try, and the pause after it. -/
def rounds (backoff : Backoff) (first number : Nat) : List Move :=
  (List.range' first number).flatMap fun i => [.ask, .pause (backoff.doubled i)]

theorem rounds_succ (backoff : Backoff) (first number : Nat) :
    rounds backoff first (number + 1)
      = .ask :: .pause (backoff.doubled first) :: rounds backoff (first + 1) number := rfl

/-- In some rounds and a last try there is one try more than there are rounds. -/
theorem Exchange.tries_rounds (result : Option (Except Failure String)) (backoff : Backoff)
    (number : Nat) : ∀ first,
      (⟨result, rounds backoff first number ++ [.ask]⟩ : Exchange).tries = number + 1 := by
  induction number with
  | zero => exact fun _ => rfl
  | succ number ih =>
    intro first
    have others := ih (first + 1)
    unfold Exchange.tries at others ⊢
    rw [rounds_succ, List.cons_append, List.cons_append, List.countP_cons, List.countP_cons, others]
    rfl

section Runs

variable {url : String} {backoff : Backoff} {wait : Waiting} {respond : Nat → Response}

/-- A try after which there is another round. -/
theorem attempt_again {left tries : Nat} (refused : ¬(respond tries).Succeeds)
    (fits : backoff.Fits wait tries) :
    attempt url backoff wait respond (left + 1) tries
      = { attempt url backoff wait respond left (tries + 1) with
          moves := .ask :: .pause (backoff.doubled tries)
            :: (attempt url backoff wait respond left (tries + 1)).moves } := by
  rw [attempt, Response.outcome_of_not_succeeds url refused]
  dsimp only
  rw [pause_of_fits fits]

/-- As long as there is no success, and the pauses can be doubled, a run goes through its rounds. -/
theorem attempt_rounds {number left tries : Nat} (enough : number ≤ left)
    (through : ∀ i, tries ≤ i → i < tries + number →
      ¬(respond i).Succeeds ∧ backoff.Fits wait i) :
    attempt url backoff wait respond left tries
      = { attempt url backoff wait respond (left - number) (tries + number) with
          moves := rounds backoff tries number
            ++ (attempt url backoff wait respond (left - number) (tries + number)).moves } := by
  induction number generalizing left tries with
  | zero => rfl
  | succ number ih =>
    obtain ⟨left, rfl⟩ : ∃ n, left = n + 1 := ⟨left - 1, by omega⟩
    obtain ⟨refused, fits⟩ := through tries (Nat.le_refl _) (by omega)
    have others : attempt url backoff wait respond left (tries + 1) = _ :=
      ih (by omega) fun i low high => through i (by omega) (by omega)
    have places : tries + 1 + number = tries + (number + 1) := by omega
    rw [attempt_again refused fits, others, rounds_succ, Nat.add_sub_add_right, places]
    rfl

/-- A run has a last try: it is successful, or there are no more, or the pause after it is refused. -/
theorem exists_last (backoff : Backoff) (wait : Waiting) (respond : Nat → Response) (retries : Nat) :
    ∃ k ≤ retries, (∀ i < k, ¬(respond i).Succeeds ∧ backoff.Fits wait i) ∧
      ((respond k).Succeeds ∨ k = retries ∨ ∃ e, backoff.Refused wait k e) := by
  classical
  let stops (k : Nat) : Prop := (respond k).Succeeds ∨ k = retries ∨ ∃ e, backoff.Refused wait k e
  have some : ∃ k, stops k := ⟨retries, .inr (.inl rfl)⟩
  refine ⟨Nat.find some, Nat.find_min' some (.inr (.inl rfl)), fun i earlier => ?_, Nat.find_spec some⟩
  have goesOn : ¬stops i := Nat.find_min some earlier
  refine ⟨fun success => goesOn (.inl success), ?_⟩
  exact (backoff.fits_or_refused wait i).resolve_right fun refused => goesOn (.inr (.inr refused))

end Runs

/-! ## Requests -/

section Requests

variable {request : Request} {backoff : Backoff} {wait : Waiting} {respond : Nat → Response}
  {retries : Nat}

theorem send_eq_attempt (plain : request.foreign? = none) :
    send request ⟨retries, backoff⟩ wait respond = attempt request.url backoff wait respond retries 0 := by
  have some : ¬((retries : Int) < 0) := by omega
  rw [send, if_neg some, plain]
  dsimp only
  rw [Int.toNat_natCast]

/-- Why a request ends with a try, and with what. -/
inductive Ends (request : Request) (backoff : Backoff) (wait : Waiting) (respond : Nat → Response)
    (retries : Nat) : Nat → Except Failure String → Prop
  | success {k : Nat} {status : Int} {text : String} (there : respond k = .answer status text)
      (within : 200 ≤ status ∧ status < 300) : Ends request backoff wait respond retries k (.ok text)
  | spent (refused : ¬(respond retries).Succeeds) :
      Ends request backoff wait respond retries retries (.error ((respond retries).complaint request.url))
  | stuck {k : Nat} {e : PauseError} (refused : ¬(respond k).Succeeds) (left : k < retries)
      (pause : backoff.Refused wait k e) : Ends request backoff wait respond retries k (.error (.pause e))

/-- What is done about a request: some rounds, and a last try. -/
theorem exists_ends (request : Request) (backoff : Backoff) (wait : Waiting)
    (respond : Nat → Response) (retries : Nat) (plain : request.foreign? = none) :
    ∃ k ≤ retries, ∃ result, (∀ i < k, ¬(respond i).Succeeds ∧ backoff.Fits wait i) ∧
      Ends request backoff wait respond retries k result ∧
      send request ⟨retries, backoff⟩ wait respond = ⟨some result, rounds backoff 0 k ++ [.ask]⟩ := by
  obtain ⟨k, enough, through, stops⟩ := exists_last backoff wait respond retries
  have run : attempt request.url backoff wait respond retries 0 = _ :=
    attempt_rounds enough fun i _ high => through i (by omega)
  rw [Nat.zero_add] at run
  rw [send_eq_attempt plain, run]
  refine ⟨k, enough, ?_⟩
  -- the last try succeeds, has no retry left, or is followed by a pause that is refused
  by_cases success : (respond k).Succeeds
  · obtain ⟨status, text, there, ok⟩ := Response.outcome_of_succeeds request.url success
    refine ⟨.ok text, through, .success there ?_, ?_⟩
    · rw [there] at success
      exact success
    · cases retries - k <;> simp only [attempt, ok]
  have failed := Response.outcome_of_not_succeeds request.url success
  by_cases last : k = retries
  · subst last
    refine ⟨_, through, .spent success, ?_⟩
    rw [Nat.sub_self, attempt, failed]
  · obtain ⟨e, refused⟩ := (stops.resolve_left success).resolve_left last
    refine ⟨_, through, .stuck success (by omega) refused, ?_⟩
    obtain ⟨left, more⟩ : ∃ n, retries - k = n + 1 := ⟨retries - k - 1, by omega⟩
    rw [more, attempt, failed]
    dsimp only
    rw [pause_of_refused refused]

/-- Where the pauses fit that come to be made, a request ends with the first success or, if that comes
too late, with the last try there is. -/
theorem Ends.of_fits {k : Nat} {result : Except Failure String}
    (ends : Ends request backoff wait respond retries k result) (enough : k ≤ retries)
    (before : ∀ i < k, ¬(respond i).Succeeds)
    (fits : ∀ i < retries, (∀ j ≤ i, ¬(respond j).Succeeds) → backoff.Fits wait i) :
    ((k + 1 : Nat) : ℕ∞) = min (firstSuccess respond) (retries + 1) ∧
    (firstSuccess respond ≤ retries + 1 → ∃ status text,
      respond k = .answer status text ∧ (200 ≤ status ∧ status < 300) ∧ result = .ok text) ∧
    (retries + 1 < firstSuccess respond →
      result = .error ((respond retries).complaint request.url)) := by
  -- why the last try is the last decides which of the two bounds on the tries is the smaller one
  cases ends with
  | @success _ status text there within =>
    have success : (respond k).Succeeds := by
      rw [there]
      exact within
    have first : firstSuccess respond = ((k + 1 : Nat) : ℕ∞) := firstSuccess_eq success before
    have inTime : firstSuccess respond ≤ retries + 1 := by
      rw [first]
      exact_mod_cast Nat.succ_le_succ enough
    refine ⟨?_, fun _ => ⟨status, text, there, within, rfl⟩, fun late => ?_⟩
    · rw [min_eq_left inTime, first]
    · exact absurd inTime (not_le.mpr late)
  | spent refused =>
    have late : (retries + 1 : ℕ∞) < firstSuccess respond := by
      exact_mod_cast lt_firstSuccess (not_succeeds_through before refused)
    refine ⟨?_, fun inTime => absurd late (not_lt.mpr inTime), fun _ => rfl⟩
    rw [min_eq_right late.le]
    push_cast
    rfl
  | stuck refused left pause =>
    -- this pause would have come to be made, so it is among those that fit
    exact absurd (fits k left (not_succeeds_through before refused)) pause.not_fits

/-- A pause that comes to be made and is refused ends a request. -/
theorem Ends.of_refused {k i : Nat} {result : Except Failure String} {e : PauseError}
    (ends : Ends request backoff wait respond retries k result)
    (through : ∀ j < k, ¬(respond j).Succeeds ∧ backoff.Fits wait j) (left : i < retries)
    (failed : ∀ j ≤ i, ¬(respond j).Succeeds) (made : ∀ j < i, backoff.Fits wait j)
    (refused : backoff.Refused wait i e) : k = i ∧ result = .error (.pause e) := by
  have within : k ≤ i := by
    by_contra later
    exact refused.not_fits (through i (not_le.mp later)).2
  cases ends with
  | success there success =>
    refine absurd ?_ (failed k within)
    rw [there]
    exact success
  | spent _ => omega
  | stuck _ _ pause =>
    have same : k = i := by
      by_contra other
      exact pause.not_fits (made k (lt_of_le_of_ne within other))
    subst same
    rw [pause.unique refused]
    exact ⟨rfl, rfl⟩

/-- The retry loop. There is one pause between two tries and none after the last, and the pauses are
the first one doubled again and again.

If no pause that comes to be made overflows, and the first successful response is in place `j`, counted
from one, then as many tries are made as the smaller of `j` and one more than the retries. What comes
back is the body of the successful response, or the failure of the last try. A pause overflows if the
first one times a power of two is no number, or if what waits refuses it, as the clock of the system
refuses a length of time that it cannot count. If one does, the try before it is the last, and its
overflow is what comes back.

It is assumed that the headers can be sent. -/
theorem send_retries (request : Request) (backoff : Backoff) (wait : Waiting)
    (respond : Nat → Response) (retries : Nat) (plain : request.foreign? = none) :
    let exchange := send request ⟨retries, backoff⟩ wait respond
    exchange.moves = ((List.range (exchange.tries - 1)).flatMap fun i =>
      [Move.ask, .pause (backoff.doubled i)]) ++ [.ask] ∧
    ((∀ i < retries, (∀ k ≤ i, ¬(respond k).Succeeds) → backoff.Fits wait i) →
      (exchange.tries : ℕ∞) = min (firstSuccess respond) (retries + 1) ∧
      (firstSuccess respond ≤ retries + 1 → ∃ status text,
        respond (exchange.tries - 1) = .answer status text ∧ (200 ≤ status ∧ status < 300) ∧
          exchange.result = some (.ok text)) ∧
      (retries + 1 < firstSuccess respond →
        exchange.result = some (.error ((respond retries).complaint request.url)))) ∧
    ∀ i < retries, ∀ e, (∀ k ≤ i, ¬(respond k).Succeeds) → (∀ k < i, backoff.Fits wait k) →
      backoff.Refused wait i e →
      exchange.tries = i + 1 ∧ exchange.result = some (.error (.pause e)) := by
  intro exchange
  obtain ⟨k, enough, result, through, ends, whole⟩ :=
    exists_ends request backoff wait respond retries plain
  have tries : exchange.tries = k + 1 := by
    change Exchange.tries (send request ⟨retries, backoff⟩ wait respond) = k + 1
    rw [whole, Exchange.tries_rounds]
  have answer : exchange.result = some result := congrArg Exchange.result whole
  rw [tries, Nat.add_sub_cancel, answer]
  refine ⟨?_, fun fits => ?_, fun i left e failed made refused => ?_⟩
  · rw [List.range_eq_range']
    exact congrArg Exchange.moves whole
  · obtain ⟨count, body, failure⟩ :=
      ends.of_fits enough (fun i earlier => (through i earlier).1) fits
    refine ⟨count, fun inTime => ?_, fun late => congrArg some (failure late)⟩
    obtain ⟨status, text, there, within, same⟩ := body inTime
    exact ⟨status, text, there, within, congrArg some same⟩
  · obtain ⟨rfl, same⟩ := ends.of_refused through left failed made refused
    exact ⟨rfl, congrArg some same⟩

/-- A server that is busy, then out of reach, and then answers. -/
def recovering : Nat → Response
  | 0 => .answer 503 "busy"
  | 1 => .failure "connection refused"
  | _ => .answer 200 "pong"

/-- A request with a header. -/
def Request.probe : Request := ⟨"GET", "http://example.test/", [("X-Test", "a")]⟩

/-- A server that is busy once. -/
def busyOnce : Nat → Response
  | 0 => .answer 500 "busy"
  | _ => .answer 200 "pong"

/-- The third try succeeds, after two pauses, and the two retries that are left are not used. Where the
first pause is longer than the clock can count, the first try is the last. -/
theorem send_retries_recovering :
    Request.probe.foreign? = none ∧
    (∀ i < 4, (∀ k ≤ i, ¬(recovering k).Succeeds) → (Backoff.real 0.5).Fits .byClock i) ∧
    firstSuccess recovering = 3 ∧
    (send Request.probe ⟨(4 : Nat), .real 0.5⟩ .byClock recovering).tries = 3 ∧
    (send Request.probe ⟨(4 : Nat), .real 0.5⟩ .byClock recovering).moves
      = [.ask, .pause ((Backoff.real 0.5).doubled 0), .ask, .pause ((Backoff.real 0.5).doubled 1), .ask] ∧
    (send Request.probe ⟨(4 : Nat), .real 0.5⟩ .byClock recovering).result = some (.ok "pong") ∧
    (send Request.probe ⟨(1 : Nat), .real 1e10⟩ .byClock busyOnce).tries = 1 ∧
    (send Request.probe ⟨(1 : Nat), .real 1e10⟩ .byClock busyOnce).result
      = some (.error (.pause .tooLong)) := by
  have plain : Request.probe.foreign? = none := by decide +kernel
  have small : ∀ i < 4, ¬Number.isInfinite (Number.ofInt (2 ^ i)) = true := by decide +kernel
  have short : ∀ i < 4, Waiting.byClock ((Backoff.real 0.5).doubled i) = none := by decide +kernel
  have fits : ∀ i < 4, (∀ k ≤ i, ¬(recovering k).Succeeds) → (Backoff.real 0.5).Fits .byClock i :=
    fun i less _ => ⟨small i less, short i less⟩
  -- the two responses before the third are refusals
  have first : firstSuccess recovering = 3 := by
    have success : (recovering 2).Succeeds := by simp [recovering, Response.Succeeds]
    have before : ∀ i < 2, ¬(recovering i).Succeeds := by
      intro i earlier
      interval_cases i <;> simp [recovering, Response.Succeeds]
    exact firstSuccess_eq success before
  have whole := send_retries Request.probe (.real 0.5) .byClock recovering 4 plain
  dsimp only at whole
  obtain ⟨moves, ends, -⟩ := whole
  obtain ⟨count, success, -⟩ := ends fits
  have inTime : firstSuccess recovering ≤ (4 : Nat) + 1 := by
    rw [first]
    exact_mod_cast (by decide : 3 ≤ 4 + 1)
  have tries : (send Request.probe ⟨(4 : Nat), .real 0.5⟩ .byClock recovering).tries = 3 := by
    rw [min_eq_left inTime, first] at count
    exact_mod_cast count
  -- a first pause of some centuries
  have failed : ∀ k ≤ 0, ¬(busyOnce k).Succeeds := by
    intro k there
    rw [Nat.le_zero.mp there]
    simp [busyOnce, Response.Succeeds]
  have refuses : Waiting.byClock ((Backoff.real 1e10).doubled 0) = some .tooLong := by decide +kernel
  have stuck := (send_retries Request.probe (.real 1e10) .byClock busyOnce 1 plain).2.2
    0 Nat.one_pos .tooLong failed (fun _ less => absurd less (Nat.not_lt_zero _))
    (.waiting (small 0 (by decide)) refuses)
  refine ⟨plain, fits, first, tries, ?_, ?_, stuck⟩
  · rw [tries] at moves
    exact moves
  · obtain ⟨status, text, there, -, answer⟩ := success inTime
    rw [tries] at there
    cases there
    exact answer

end Requests

end ContractScript.Http
