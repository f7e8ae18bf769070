/-
Requests over the network, as far as they can be decided without one: a request
is tried until a response with a success status comes or the retries are used
up, and the pauses between the tries double each time. A pause can be refused, by
the arithmetic or by what waits, and then the request ends there.
-/
import ContractScript.Number.Notation
import ContractScript.Text.Quoted

set_option autoImplicit false

namespace ContractScript.Http

/-- A request. -/
structure Request where
  method : String
  url : String
  headers : List (String × String)
deriving Repr, DecidableEq

/-- A length of time in seconds, such as the first pause after a failure. Whole
seconds are exact. -/
inductive Backoff where
  | whole (seconds : Int)
  | real (seconds : Float)
deriving Repr

/-- How often a request is repeated after a failure, and the first pause. -/
structure Policy where
  retries : Int
  backoff : Backoff
deriving Repr

/-- What comes back for one try. -/
inductive Response where
  | answer (status : Int) (text : String)
  | failure (text : String)
deriving Repr, DecidableEq

/-- A stretch of characters that a header cannot hold: its first character, its
position and its length. -/
structure Foreign where
  first : Char
  position : Nat
  size : Nat
deriving Repr, DecidableEq

/-- Whether a header can hold a character. -/
def isPlain (c : Char) : Bool :=
  decide (c.toNat < 128)

/-- The first stretch of a text that a header cannot hold. -/
def foreign? (text : String) : Option Foreign :=
  match text.toList.dropWhile isPlain with
  | [] => none
  | c :: rest =>
    some ⟨c, (text.toList.takeWhile isPlain).length, (rest.takeWhile fun d => !isPlain d).length + 1⟩

/-- The wording for a stretch that a header cannot hold. -/
def Foreign.message (f : Foreign) : String :=
  let place :=
    if f.size == 1 then
      "character '" ++ String.ofList (Text.escapeCode f.first) ++ "' in position "
        ++ toString f.position
    else
      "characters in position " ++ toString f.position ++ "-" ++ toString (f.position + f.size - 1)
  "'ascii' codec can't encode " ++ place ++ ": ordinal not in range(128)"

/-- Why a pause cannot be made. -/
inductive PauseError where
  /-- An integer is too large to become a real number. -/
  | tooLarge
  | notANumber
  | negative
  /-- The clock does not count that far. -/
  | tooLong
deriving Repr, DecidableEq

/-- The wording for a pause that cannot be made. -/
def PauseError.message : PauseError → String
  | .tooLarge => "int too large to convert to float"
  | .notANumber => "Invalid value NaN (not a number)"
  | .negative => "sleep length must be non-negative"
  | .tooLong => "timestamp too large to convert to C _PyTime_t"

/-- What waits: whether it refuses a length of time, and why. -/
abbrev Waiting := Backoff → Option PauseError

/-- The clock of the system counts nanoseconds in so many bits, and a sign. -/
def clockBits : Nat := 63

/-- Waiting by the clock of the system. -/
def Waiting.byClock : Waiting
  | .whole seconds =>
    let nanoseconds := seconds * Number.powTen 9
    if nanoseconds < -Number.powTwo clockBits || Number.powTwo clockBits ≤ nanoseconds then
      some .tooLong
    else if seconds < 0 then some .negative
    else none
  | .real seconds =>
    if Number.isNaN seconds then some .notANumber
    else
      let nanoseconds := seconds * Number.ofInt (Number.powTen 9)
      if nanoseconds < Number.ofInt (-Number.powTwo clockBits)
          || Number.ofInt (Number.powTwo clockBits) ≤ nanoseconds then
        some .tooLong
      else if seconds < Number.ofInt 0 then some .negative
      else none

/-- Why a request failed for good. -/
inductive Failure where
  | status (code : Int) (url : String) (preview : String)
  | connection (text : String)
  /-- The next pause cannot be made. -/
  | pause (e : PauseError)
  /-- A header cannot be sent. -/
  | header (f : Foreign)
deriving Repr, DecidableEq

/-- The first stretch in the headers that they cannot hold; a name comes before
its value. -/
def Request.foreign? (r : Request) : Option Foreign :=
  r.headers.findSome? fun h => (Http.foreign? h.1).or (Http.foreign? h.2)

/-- The value of a header: all values whose names are the same but for the case
of their letters. -/
def Request.header? (r : Request) (name : String) : Option String :=
  let lower (t : String) : List Char := t.toList.map Char.toLower
  let found := (r.headers.filter fun h => lower h.1 == lower name).map Prod.snd
  if found.isEmpty then none else some (", ".intercalate found)

/-- The wording of a failure. -/
def Failure.message : Failure → String
  | .status code url preview => "HTTP " ++ toString code ++ " for " ++ url ++ ": " ++ preview
  | .connection text => text
  | .pause e => e.message
  | .header f => f.message

/-- The number of characters of a refused body that a failure shows. -/
def previewSize : Nat := 200

/-- Whether a status means success. -/
def isSuccess (status : Int) : Bool :=
  200 ≤ status && status < 300

/-- The body of a successful response, or the failure that it means. -/
def Response.outcome (url : String) : Response → Except Failure String
  | .answer status text =>
    if isSuccess status then .ok text
    else .error (.status status url (String.ofList (text.toList.take previewSize)))
  | .failure text => .error (.connection text)

/-- An integer as a number; `none` if it is too large. -/
def seconds? (n : Int) : Option Float :=
  let x := Number.ofInt n
  if Number.isInfinite x then none else some x

/-- The pause after a number of tries: doubled each time. A real number is
multiplied by a power of two, which has to become a real number for it. -/
def Backoff.doubled? (tries : Nat) : Backoff → Option Backoff
  | .whole seconds => some (.whole (seconds * Number.powTwo tries))
  | .real seconds => (seconds? (Number.powTwo tries)).map fun factor => .real (seconds * factor)

/-- The pause after a number of tries, or why it cannot be made. -/
def pause (wait : Waiting) (tries : Nat) (backoff : Backoff) : Except PauseError Backoff :=
  match backoff.doubled? tries with
  | none => .error .tooLarge
  | some length =>
    match wait length with
    | some e => .error e
    | none => .ok length

/-- What is done about a request: it is sent, or some time passes. -/
inductive Move where
  | ask
  | pause (length : Backoff)
deriving Repr

/-- Whether a move is a try. -/
def Move.isTry : Move → Bool
  | .ask => true
  | .pause _ => false

/-- How long a move takes by itself. -/
def Move.length? : Move → Option Backoff
  | .ask => none
  | .pause length => some length

/-- What a request did: how it ended, and what was done in order. The end is
`none` if no try was made. -/
structure Exchange where
  result : Option (Except Failure String)
  moves : List Move

/-- The number of tries. -/
def Exchange.tries (e : Exchange) : Nat :=
  e.moves.countP Move.isTry

/-- The pauses in order. -/
def Exchange.pauses (e : Exchange) : List Backoff :=
  e.moves.filterMap Move.length?

/-- Tries a request with `left` more tries after this one; `tries` have been
made. -/
def attempt (url : String) (backoff : Backoff) (wait : Waiting) (respond : Nat → Response) :
    Nat → Nat → Exchange
  | 0, tries => ⟨some ((respond tries).outcome url), [.ask]⟩
  | left + 1, tries =>
    match (respond tries).outcome url with
    | .ok body => ⟨some (.ok body), [.ask]⟩
    | .error _ =>
      match pause wait tries backoff with
      | .error e => ⟨some (.error (.pause e)), [.ask]⟩
      | .ok length =>
        let later := attempt url backoff wait respond left (tries + 1)
        { later with moves := .ask :: .pause length :: later.moves }

/-- Sends a request; `respond` gives the response to each try, counted from
zero. A negative number of retries means that nothing is sent. -/
def send (request : Request) (policy : Policy) (wait : Waiting) (respond : Nat → Response) :
    Exchange :=
  if policy.retries < 0 then ⟨none, []⟩
  else
    match request.foreign? with
    | some f => ⟨some (.error (.header f)), []⟩
    | none => attempt request.url policy.backoff wait respond policy.retries.toNat 0

end ContractScript.Http
