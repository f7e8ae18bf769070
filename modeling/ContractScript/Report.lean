/-
Reports that a run writes about itself: on a fault, with the lines of source
around it and the calls in progress, and on the results of tests.
-/
import ContractScript.Machine
import ContractScript.Text.Lines

set_option autoImplicit false

namespace ContractScript.Report

/-! ## Faults -/

/-- The number of lines shown before and after the line of a fault. -/
def radius : Nat := 2

/-- A text moved right to a width. -/
def padLeft (width : Nat) (text : String) : String :=
  String.ofList (List.replicate (width - text.length) ' ') ++ text

/-- One numbered line of source; the line of the fault is marked. -/
def contextLine (marked width number : Nat) (text : String) : String :=
  (if number == marked then ">" else " ") ++ " " ++ padLeft width (toString number) ++ " | " ++ text

/-- The lines of a source around a line; nothing if there is no such line. -/
def context (source : String) (line : Nat) : List String :=
  let all := Text.lines source
  if line < 1 || all.length < line then []
  else
    let first := max 1 (line - radius)
    let last := min all.length (line + radius)
    let width := (toString last).length
    ((all.drop (first - 1)).take (last + 1 - first)).zipIdx first |>.map fun (text, number) =>
      contextLine line width number text

/-- The calls in progress, innermost first. -/
def callStack : Option (List Frame) → List String
  | none => []
  | some [] => []
  | some frames =>
    "Call stack (innermost first):" :: frames.reverse.map fun f => "  " ++ f.text

/-- The source that a fault's lexeme is shown in: a text and its name. -/
structure Script where
  source : String
  file : Option String
deriving Repr

/-- The place of a fault, and the lines around it if they are of the script. -/
def location (script : Script) : Option Lexeme → List String
  | none => []
  | some lexeme =>
    ("[" ++ lexeme.place.text ++ "]")
      :: (if lexeme.place.file == script.file then context script.source lexeme.place.line else [])

/-- The report on a fault. -/
def ofFault (script : Script) (f : Fault) : String :=
  "\n".intercalate
    (("RuntimeError: " ++ f.cause.message) :: (location script f.lexeme ++ callStack f.stack))

/-! ## Tests -/

/-- The template of a report on test results. -/
def template : String :=
  "Test Results:\n\x7b\x7b#results\x7d\x7d\n\x7b\x7bstatus\x7d\x7d (line \x7b\x7bline\x7d\x7d): "
    ++ "\x7b\x7bname\x7d\x7d\x7b\x7b#message\x7d\x7d (\x7b\x7bmessage\x7d\x7d)"
    ++ "\x7b\x7b/message\x7d\x7d\n\x7b\x7b/results\x7d\x7d"

/-- A test result as a row. -/
def row (r : TestResult) : TestRow :=
  ⟨if r.failure.isNone then "PASS" else "FAIL", r.line, r.name, r.failure⟩

/-- A text without line feeds at its end. -/
def dropNewlines (text : String) : String :=
  String.ofList ((text.toList.reverse.dropWhile (· == '\n')).reverse)

/-- The report on test results. -/
def ofTests (render : Renderer) (results : List TestResult) : String :=
  dropNewlines (render template (results.map row))

/-- A row as the template has it. -/
def rowText (r : TestRow) : String :=
  r.status ++ " (line " ++ toString r.line ++ "): " ++ r.name ++
    (match r.message with
      | none => ""
      | some message => " (" ++ message ++ ")") ++ "\n"

/-- The usual renderer, which knows the one template there is. -/
def filled : Renderer := fun _ rows =>
  String.join ("Test Results:\n" :: rows.map rowText)

end ContractScript.Report
