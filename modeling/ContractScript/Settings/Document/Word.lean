/-
What a plain text of a settings file stands for. It is read by its look: truth
values, nothing, integers in several bases, decimal fractions and dates are
recognised, and everything else is a text. Integers and fractions may also be
written in base sixty, with colons between the places.
-/
import ContractScript.Settings
import ContractScript.Settings.Document.Glyph
import ContractScript.Text.Numeral

set_option autoImplicit false

namespace ContractScript.Document

/-- The kinds of data that a node can be marked as. -/
inductive Tag where
  | null
  | flag
  | integer
  | fraction
  | date
  | text
  | list
  | map
  /-- The key under which a map takes over the entries of others. -/
  | merge
  /-- The key of a value without a name. -/
  | unnamed
  | unknown
deriving Repr, DecidableEq

/-- Why a text is not what it is marked as, or looks like. -/
inductive WordFault where
  /-- It spells no integer of a base. -/
  | notInteger (base : Nat) (text : String)
  | tooManyDigits (digits : Nat)
  | notNumber (text : String)
  | notFlag (text : String)
  | empty
  | tooLarge
  /-- It is not a date that exists; the reason. -/
  | noDate (reason : String)
  /-- It does not look like one. -/
  | unlike
deriving Repr, DecidableEq

/-! ## Looks -/

/-- Digits and underscores. -/
def isDigitish (c : Char) : Bool :=
  c.isDigit || c == '_'

/-- A digit followed by digits and underscores. -/
def isDigitRun (cs : List Char) : Bool :=
  (cs.head?.map Char.isDigit).getD false && cs.all isDigitish

/-- Pieces between colons. -/
def splitColons : List Char → List (List Char)
  | [] => [[]]
  | c :: rest =>
    if c == ':' then [] :: splitColons rest
    else
      match splitColons rest with
      | first :: more => (c :: first) :: more
      | [] => [[c]]

/-- A place of base sixty: one digit, or two of which the first is below six. -/
def isSixtieth (piece : List Char) : Bool :=
  match piece with
  | [c] => c.isDigit
  | [c, d] => '0' ≤ c && c ≤ '5' && d.isDigit
  | _ => false

/-- Whether pieces between colons are a number in base sixty. -/
def isSixties (cs : List Char) : Bool :=
  match splitColons cs with
  | first :: second :: more => isDigitRun first && isSixtieth second && more.all isSixtieth
  | _ => false

/-- Whether all characters are digits of a base or underscores, and there are
some. -/
def isRunIn (base : Nat) (cs : List Char) : Bool :=
  !cs.isEmpty && cs.all fun c => c == '_' || (digitIn? base c).isSome

/-- Whether a text looks like an integer. -/
def looksInteger (cs : List Char) : Bool :=
  match (Text.splitSign cs).2 with
  | ['0'] => true
  | '0' :: 'b' :: rest => isRunIn 2 rest
  | '0' :: 'x' :: rest => isRunIn 16 rest
  | '0' :: rest => isRunIn 8 rest
  | body => isDigitRun body || isSixties body

/-- An exponent of a fraction: a mark, a sign and digits; or nothing. -/
def isExponentPart : List Char → Bool
  | [] => true
  | mark :: sign :: digits =>
    Text.isExponentMark mark && (sign == '-' || sign == '+') && !digits.isEmpty
      && digits.all Char.isDigit
  | _ => false

/-- Whether a text looks like a decimal fraction. One that starts with its point
has no sign. -/
def looksFraction (cs : List Char) : Bool :=
  let body := (Text.splitSign cs).2
  let whole := body.takeWhile (· != '.')
  match body.dropWhile (· != '.') with
  | [] => false
  | _ :: rest =>
    let power := rest.dropWhile isDigitish
    String.ofList body ∈ [".inf", ".Inf", ".INF"] || String.ofList cs ∈ [".nan", ".NaN", ".NAN"]
      || (isDigitRun whole && isExponentPart power)
      || (isSixties whole && power.isEmpty)
      || (cs.head? == some '.' && (rest.head?.map Char.isDigit).getD false && isExponentPart power)

/-! ## Dates -/

/-- A date, perhaps with a time of day and a distance from the common time. -/
structure Moment where
  year : Nat
  month : Nat
  day : Nat
  /-- Hour, minute, second and millionths. -/
  time : Option (Nat × Nat × Nat × Nat)
  /-- Minutes ahead of the common time. -/
  ahead : Option Int
deriving Repr, DecidableEq

/-- Between `least` and `most` digits in front of characters: their number, and
what follows. -/
def digits? (least most : Nat) (cs : List Char) : Option (Nat × List Char) :=
  let found := (cs.take most).takeWhile Char.isDigit
  if least ≤ found.length then some (Number.ofDigits found, cs.drop found.length) else none

/-- A character in front of characters, and what follows. -/
def skip? (c : Char) (cs : List Char) : Option (List Char) :=
  match cs with
  | d :: rest => if d == c then some rest else none
  | [] => none

/-- Spaces and tabs. -/
def isGap (c : Char) : Bool :=
  c == ' ' || c == '\t'

/-- The distance from the common time at the end of a date. -/
def zone? (cs : List Char) : Option (Option Int) :=
  match cs.dropWhile isGap with
  | [] => if cs.isEmpty then some none else none
  | ['Z'] => some (some 0)
  | sign :: rest =>
    if sign == '+' || sign == '-' then do
      let (hours, rest) ← digits? 1 2 rest
      let minutes ← match rest with
        | [] => some 0
        | _ => do
          let (minutes, rest) ← digits? 2 2 (← skip? ':' rest)
          if rest.isEmpty then some minutes else none
      let distance : Int := (60 * hours + minutes : Nat)
      return some (if sign == '-' then -distance else distance)
    else none

/-- The digits of a fraction of a second as millionths. -/
def millionths (digits : List Char) : Nat :=
  Number.ofDigits ((digits ++ List.replicate 6 '0').take 6)

/-- The time of day after a date. -/
def time? (cs : List Char) : Option ((Nat × Nat × Nat × Nat) × Option Int) := do
  let (hour, rest) ← digits? 1 2 cs
  let (minute, rest) ← digits? 2 2 (← skip? ':' rest)
  let (second, rest) ← digits? 2 2 (← skip? ':' rest)
  let (fraction, rest) := match rest with
    | '.' :: more => (more.takeWhile Char.isDigit, more.dropWhile Char.isDigit)
    | _ => ([], rest)
  let ahead ← zone? rest
  return ((hour, minute, second, millionths fraction), ahead)

/-- The date that a text looks like. Month and day have two digits unless a time
follows. -/
def moment? (cs : List Char) : Option Moment := do
  let (year, rest) ← digits? 4 4 cs
  let (month, rest) ← digits? 1 2 (← skip? '-' rest)
  let (day, rest) ← digits? 1 2 (← skip? '-' rest)
  if rest.isEmpty then if cs.length == 10 then some ⟨year, month, day, none, none⟩ else none
  else
    let start ← match rest with
      | c :: more =>
        if c == 'T' || c == 't' then some more
        else if isGap c then some (more.dropWhile isGap)
        else none
      | [] => none
    let (time, ahead) ← time? start
    return ⟨year, month, day, some time, ahead⟩

/-- The number of days of a month. -/
def daysIn (year month : Nat) : Nat :=
  if month == 2 then
    if year % 4 == 0 && (year % 100 != 0 || year % 400 == 0) then 29 else 28
  else if month ∈ [4, 6, 9, 11] then 30
  else 31

/-- A distance in minutes as whole days and seconds. -/
def distanceText (minutes : Int) : String :=
  let days := minutes.fdiv (24 * 60)
  let seconds := 60 * minutes.fmod (24 * 60)
  let parts := (if days == 0 then [] else ["days=" ++ toString days])
    ++ (if seconds == 0 then [] else ["seconds=" ++ toString seconds])
  "datetime.timedelta(" ++ ", ".intercalate parts ++ ")"

/-- Why a date does not exist. -/
def Moment.flaw? (m : Moment) : Option String :=
  let (hour, minute, second, _) := m.time.getD (0, 0, 0, 0)
  let ahead := m.ahead.getD 0
  if 24 * 60 ≤ ahead.natAbs then
    some ("offset must be a timedelta strictly between -timedelta(hours=24) and "
      ++ "timedelta(hours=24), not " ++ distanceText ahead ++ ".")
  else if m.year == 0 then some "year 0 is out of range"
  else if m.month == 0 || 12 < m.month then some "month must be in 1..12"
  else if m.day == 0 || daysIn m.year m.month < m.day then some "day is out of range for month"
  else if 23 < hour then some "hour must be in 0..23"
  else if 59 < minute then some "minute must be in 0..59"
  else if 59 < second then some "second must be in 0..59"
  else none

/-- Digits with zeros in front. -/
def padded (width n : Nat) : String :=
  let digits := Number.digitsOf n
  String.ofList (List.replicate (width - digits.length) '0' ++ digits)

/-- The standard form of a date. -/
def Moment.text (m : Moment) : String :=
  let date := padded 4 m.year ++ "-" ++ padded 2 m.month ++ "-" ++ padded 2 m.day
  let time := match m.time with
    | none => ""
    | some (hour, minute, second, fraction) =>
      " " ++ padded 2 hour ++ ":" ++ padded 2 minute ++ ":" ++ padded 2 second
        ++ (if fraction == 0 then "" else "." ++ padded 6 fraction)
  let zone := match m.ahead with
    | none => ""
    | some ahead =>
      (if ahead < 0 then "-" else "+") ++ padded 2 (ahead.natAbs / 60) ++ ":"
        ++ padded 2 (ahead.natAbs % 60)
  date ++ time ++ zone

/-- The date of a text. -/
def dateOf (cs : List Char) : Except WordFault Datum :=
  match moment? cs with
  | none => .error .unlike
  | some m =>
    match m.flaw? with
    | some reason => .error (.noDate reason)
    | none => .ok (if m.time.isSome then .moment m.text else .date m.text)

/-! ## Numbers -/

/-- A text without underscores: whether it is negative, and the rest. -/
def signed (cs : List Char) : Except WordFault (Bool × List Char) :=
  let kept := cs.filter (· != '_')
  if kept.isEmpty then .error .empty else .ok (Text.splitSign kept)

/-- The integer of a decimal text. -/
def decimalOf (cs : List Char) : Except WordFault Int :=
  match Text.integer (String.ofList cs) with
  | .ok n => .ok n
  | .error .notNumeral => .error (.notInteger 10 (String.ofList cs))
  | .error (.tooLong digits) => .error (.tooManyDigits digits)

/-- The integer of digits of a base. -/
def integerIn (base : Nat) (cs : List Char) : Except WordFault Int :=
  match naturalIn? base cs with
  | some n => .ok n
  | none => .error (.notInteger base (String.ofList cs))

/-- The integer of a text without its sign. -/
def unsignedInteger (body : List Char) : Except WordFault Int :=
  match body with
  | [] => .error .empty
  | ['0'] => .ok 0
  | '0' :: 'b' :: rest => integerIn 2 rest
  | '0' :: 'x' :: rest => integerIn 16 rest
  | '0' :: _ => integerIn 8 body
  | _ =>
    if body.contains ':' then
      (splitColons body).foldlM (fun n piece => (decimalOf piece).map (60 * n + ·)) 0
    else decimalOf body

/-- The integer of a text. -/
def integerOf (cs : List Char) : Except WordFault Int := do
  let (negative, body) ← signed cs
  let size ← unsignedInteger body
  return if negative then -size else size

/-- The number of a decimal text. -/
def numberOf (cs : List Char) : Except WordFault Float :=
  match Text.number? (String.ofList cs) with
  | some x => .ok x
  | none => .error (.notNumber (String.ofList cs))

/-- The sum of places of base sixty, the last first. `unit` is what one of the
next place is worth. -/
def sumOfPlaces (unit : Int) (sum : Float) : List Float → Except WordFault Float
  | [] => .ok sum
  | place :: rest =>
    let worth := Number.ofInt unit
    if Number.isInfinite worth then .error .tooLarge
    else sumOfPlaces (60 * unit) (sum + place * worth) rest

/-- The number of a text. -/
def fractionOf (cs : List Char) : Except WordFault Float := do
  let (negative, body) ← signed (cs.map Char.toLower)
  let size ←
    if String.ofList body == ".inf" then .ok Number.infinity
    else if String.ofList body == ".nan" then .ok Number.nan
    else if body.contains ':' then do
      sumOfPlaces 1 0.0 (← (splitColons body).mapM numberOf).reverse
    else numberOf body
  return if negative && !Number.isNaN size then -size else size

/-! ## Words -/

/-- What a plain text looks like. -/
def look (text : String) : Tag :=
  if text ∈ ["", "~", "null", "Null", "NULL"] then .null
  else if text ∈ ["yes", "Yes", "YES", "no", "No", "NO", "true", "True", "TRUE", "false", "False",
      "FALSE", "on", "On", "ON", "off", "Off", "OFF"] then .flag
  else if text == "<<" then .merge
  else if text == "=" then .unnamed
  else if looksFraction text.toList then .fraction
  else if looksInteger text.toList then .integer
  else if (moment? text.toList).isSome then .date
  else .text

/-- The truth value of a word. -/
def flagOf (text : String) : Except WordFault Bool :=
  let word := String.ofList (text.toList.map Char.toLower)
  if word ∈ ["yes", "true", "on"] then .ok true
  else if word ∈ ["no", "false", "off"] then .ok false
  else .error (.notFlag word)

/-- What a text marked with a tag stands for. -/
def datumOf (tag : Tag) (text : String) : Except WordFault Datum :=
  match tag with
  | .null => .ok .null
  | .flag => (flagOf text).map .bool
  | .integer => (integerOf text.toList).map .int
  | .fraction => (fractionOf text.toList).map .num
  | .date => dateOf text.toList
  | .text => .ok (.text text)
  | _ => .error .unlike

end ContractScript.Document
