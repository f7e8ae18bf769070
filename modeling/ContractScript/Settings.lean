/-
The settings of a run, and the plain data that settings are written with.
-/
import ContractScript.Http

set_option autoImplicit false

namespace ContractScript

/-- Plain data of a settings file. -/
inductive Datum where
  | null
  | bool (value : Bool)
  | int (value : Int)
  | num (value : Float)
  | text (value : String)
  | list (items : List Datum)
  | map (entries : List (Datum × Datum))
  /-- A day; its standard form. -/
  | date (text : String)
  /-- A day with a time; its standard form. -/
  | moment (text : String)
deriving Repr, Inhabited

/-- Why no data is made of a settings file. -/
inductive Settings.Unread where
  /-- It is not written in the language of settings files. -/
  | malformed (complaint : String)
  /-- Something in it has no value, or its bytes are no text. -/
  | unfit (complaint : String)
  /-- The reader of the file failed in another way. -/
  | failed (kind complaint : String)
deriving Repr, DecidableEq

/-- What makes data of the bytes of a settings file. A map that it makes has each
of its keys once. -/
abbrev Settings.Reader := ByteArray → Except Settings.Unread Datum

/-- The settings of a run. -/
structure Settings where
  /-- Keep and run tests. -/
  testMode : Bool := false
  /-- Show the value of every expression at the top level. -/
  repl : Bool := false
  /-- Trace what happens. -/
  debug : Bool := false
  /-- Where files and imports of the script are looked for. This is taken as it
  was written. -/
  sourceDir : Datum := .null
  httpTimeout : Float := 5.0
  httpRetries : Int := 2
  httpBackoff : Http.Backoff := .real 0.2
deriving Repr, Inhabited

/-- The directory of the script, if one is set. -/
def Settings.directory (s : Settings) : Option String :=
  match s.sourceDir with
  | .text dir => some dir
  | _ => none

end ContractScript
