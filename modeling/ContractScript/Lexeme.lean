/-
Places in a source text and the pieces of text found there. Every error that a
program can cause is reported at a lexeme.
-/

set_option autoImplicit false

namespace ContractScript

/-- A line of a source, which may have a name. -/
structure Place where
  file : Option String
  line : Nat
deriving Repr, DecidableEq, Inhabited

/-- A place as reports show it; an empty name counts as none. -/
def Place.text (p : Place) : String :=
  match p.file with
  | some file =>
    if file.isEmpty then "line " ++ toString p.line else file ++ ":" ++ toString p.line
  | none => "line " ++ toString p.line

/-- A piece of source text and the place where it starts. -/
structure Lexeme where
  text : String
  place : Place
deriving Repr, DecidableEq, Inhabited

end ContractScript
