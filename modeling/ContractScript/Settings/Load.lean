/-
Loading settings. They come from a file next to the script, from variables of
the environment and from explicit overrides; of two values for one setting the
later source wins, and only the winner is converted.
-/
import ContractScript.Host
import ContractScript.Settings
import ContractScript.Text.Numeral
import ContractScript.Text.Quoted

set_option autoImplicit false

namespace ContractScript.Settings

/-- The name of the settings file. -/
def fileName : String := "tahini.yaml"

/-- Why settings cannot be loaded. -/
inductive LoadError where
  /-- No data is made of the file. -/
  | unread (why : Unread)
  | unknownSetting (name : String)
  | notMapping
  /-- A text that spells no number. -/
  | notNumber (text : String)
  /-- A text that spells no integer. -/
  | notInteger (text : String)
  /-- An integer with more digits than are read. -/
  | tooManyDigits (digits : Nat)
  /-- Something of a kind that has no number. -/
  | noNumber (kind : String)
  /-- Something of a kind that has no integer. -/
  | noInteger (kind : String)
  | infiniteInteger
  | nanInteger
  | integerTooLarge
deriving Repr, DecidableEq

/-- The greatest length of the cited text in a complaint about an integer. -/
def citedLength : Nat := 200

/-- The complaint about a text that spells no integer of a base. -/
def notInteger (base : Nat) (text : String) : String :=
  "invalid literal for int() with base " ++ toString base ++ ": "
    ++ String.ofList ((Text.quoted text).toList.take citedLength)

/-- The complaint about a text with too many digits for an integer. -/
def tooManyDigits (digits : Nat) : String :=
  "Exceeds the limit (" ++ toString Text.maxDigits
    ++ " digits) for integer string conversion: value has " ++ toString digits
    ++ " digits; use sys.set_int_max_str_digits() to increase the limit"

/-- The complaint about a text that spells no number. -/
def notNumber (text : String) : String :=
  "could not convert string to float: " ++ Text.quoted text

/-- The wording of a failure to load. -/
def LoadError.message : LoadError → String
  | .unread (.malformed complaint) => "Invalid " ++ fileName ++ ": " ++ complaint
  | .unread (.unfit complaint) => complaint
  | .unread (.failed _ complaint) => complaint
  | .unknownSetting name => "Unknown setting '" ++ name ++ "' in " ++ fileName ++ "."
  | .notMapping => "Invalid " ++ fileName ++ ": expected a mapping of settings."
  | .notNumber text => Settings.notNumber text
  | .notInteger text => Settings.notInteger 10 text
  | .tooManyDigits digits => Settings.tooManyDigits digits
  | .noNumber kind => "float() argument must be a string or a real number, not '" ++ kind ++ "'"
  | .noInteger kind =>
    "int() argument must be a string, a bytes-like object or a real number, not '" ++ kind ++ "'"
  | .infiniteInteger => "cannot convert float infinity to integer"
  | .nanInteger => "cannot convert float NaN to integer"
  | .integerTooLarge => "int too large to convert to float"

/-- Whether a failure is one that the command line explains to its user. The
others come from a reader that fails in an unusual way, or from a value of a kind
or size that has no conversion at all, and the command line does not expect
them. -/
def LoadError.isExplained : LoadError → Bool
  | .unread (.failed _ _) => false
  | .noNumber _ => false
  | .noInteger _ => false
  | .infiniteInteger => false
  | .integerTooLarge => false
  | _ => true

/-! ## Conversion -/

/-- Whether a text switches a flag on. -/
def flagOfText (text : String) : Bool :=
  let word := String.ofList ((Text.strip text).toList.map Char.toLower)
  !(["", "0", "false", "no", "off"].contains word)

/-- A flag. -/
def flag : Datum → Bool
  | .null => false
  | .bool b => b
  | .int n => n != 0
  | .num x => !Number.isZero x
  | .text t => flagOfText t
  | .list items => !items.isEmpty
  | .map entries => !entries.isEmpty
  | .date _ => true
  | .moment _ => true

/-- The word for the kind of something that is no number. -/
def kindWord : Datum → String
  | .list _ => "list"
  | .map _ => "dict"
  | .date _ => "datetime.date"
  | .moment _ => "datetime.datetime"
  | _ => "NoneType"

/-- A number. -/
def number : Datum → Except LoadError Float
  | .bool b => .ok (if b then 1.0 else 0.0)
  | .int n =>
    let x := Number.ofInt n
    if Number.isInfinite x then .error .integerTooLarge else .ok x
  | .num x => .ok x
  | .text t =>
    match Text.number? t with
    | some x => .ok x
    | none => .error (.notNumber t)
  | other => .error (.noNumber (kindWord other))

/-- An integer; a fraction is cut off. -/
def integer : Datum → Except LoadError Int
  | .bool b => .ok (if b then 1 else 0)
  | .int n => .ok n
  | .num x =>
    if Number.isNaN x then .error .nanInteger
    else if Number.isInfinite x then .error .infiniteInteger
    else .ok (Number.truncate x)
  | .text t =>
    match Text.integer t with
    | .ok n => .ok n
    | .error .notNumeral => .error (.notInteger t)
    | .error (.tooLong digits) => .error (.tooManyDigits digits)
  | other => .error (.noInteger (kindWord other))

/-- Sets one setting by name. -/
def set (s : Settings) (name : String) (v : Datum) : Except LoadError Settings :=
  match name with
  | "test_mode" => .ok { s with testMode := flag v }
  | "repl" => .ok { s with repl := flag v }
  | "debug" => .ok { s with debug := flag v }
  | "source_dir" => .ok { s with sourceDir := v }
  | "http_timeout" => (number v).map fun x => { s with httpTimeout := x }
  | "http_retries" => (integer v).map fun n => { s with httpRetries := n }
  | "http_backoff" => (number v).map fun x => { s with httpBackoff := .real x }
  | other => .error (.unknownSetting other)

/-- Sets settings by name, one after another. -/
def ofValues (values : OrderedMap String Datum) : Except LoadError Settings :=
  values.entries.foldlM (fun s entry => s.set entry.1 entry.2) {}

/-! ## Sources -/

/-- The name of a setting as a key of a file spells it. -/
def nameOf : Datum → String
  | .null => "None"
  | .bool true => "True"
  | .bool false => "False"
  | .int n => toString n
  | .num x => Number.Layout.exact.text x
  | .text t => t
  | .list _ => "[]"
  | .map _ => "\x7b\x7d"
  | .date t => t
  | .moment t => t

/-- A name with underscores in place of hyphens. -/
def foldHyphens (name : String) : String :=
  String.ofList (name.toList.map fun c => if c == '-' then '_' else c)

/-- The values of a document. Of two keys that spell the same name the later one
counts. -/
def ofDocument : Datum → Except LoadError (OrderedMap String Datum)
  | .null => .ok .empty
  | .map entries => .ok (.ofList (entries.map fun e => (foldHyphens (nameOf e.1), e.2)))
  | _ => .error .notMapping

/-- The values of the settings file in a directory; none if there is no file. -/
def ofFile (read : Reader) (host : Host) (dir : String) : Except LoadError (OrderedMap String Datum) :=
  let path := Path.within dir fileName
  if host.files.isFile host.current path then
    match host.files.readBytes host.current path with
    | .error _ => .ok .empty
    | .ok bytes =>
      match read bytes with
      | .ok datum => ofDocument datum
      | .error why => .error (.unread why)
  else .ok .empty

/-- The values of the environment. -/
def ofEnvironment (environment : List (String × String)) : OrderedMap String Datum :=
  let debug := (environment.lookup "TAHINI_DEBUG").map fun t => ("debug", Datum.bool (flagOfText t))
  let timeout := (environment.lookup "TAHINI_HTTP_TIMEOUT").map fun t => ("http_timeout", Datum.text t)
  let retries := (environment.lookup "TAHINI_HTTP_RETRIES").map fun t => ("http_retries", Datum.text t)
  .ofList (debug.toList ++ timeout.toList ++ retries.toList)

/-- The overrides that say something. -/
def ofOverrides (overrides : List (String × Datum)) : OrderedMap String Datum :=
  .ofList (overrides.filter fun o =>
    match o.2 with
    | .null => false
    | _ => true)

/-- Loads the settings of a script in a directory. -/
def load (read : Reader) (host : Host) (environment : List (String × String))
    (sourceDir : Option String) (overrides : List (String × Datum)) : Except LoadError Settings := do
  let dir := match sourceDir with
    | some dir => if dir.isEmpty then host.current else dir
    | none => host.current
  let file ← ofFile read host dir
  let values := (file.override (ofEnvironment environment)).override (ofOverrides overrides)
  match sourceDir with
  | some dir => ofValues (values.insert "source_dir" (.text dir))
  | none => ofValues values

end ContractScript.Settings
