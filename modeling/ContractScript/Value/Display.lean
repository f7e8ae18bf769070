/-
Values as text. By itself a text is shown as it is; inside a list or a map it
stands between quotes.
-/
import ContractScript.Number.Notation
import ContractScript.Value

set_option autoImplicit false

namespace ContractScript.Store

/-- A text between double quotes, with nothing escaped. -/
def quoteText (text : String) : String :=
  "\"" ++ text ++ "\""

/-- A function as text. -/
def functionText (s : Store) (id : FunctionId) : String :=
  match s.closure? id with
  | some c => "<fn " ++ c.signature.name.text ++ ">"
  | none => "<fn >"

/-- A value as text, `nested` inside a list or map or not; nothing if the
budget of levels is used up. -/
def show? (s : Store) : Nat → Bool → Value → Option String
  | 0, _, _ => none
  | depth + 1, nested, v =>
    match v with
    | .nil => some "nil"
    | .bool true => some "true"
    | .bool false => some "false"
    | .num x => some (Number.Layout.plain.text x)
    | .text t => some (if nested then quoteText t else t)
    | .list id =>
      ((s.items id).toList.mapM (show? s depth true)).map fun items =>
        "[" ++ ", ".intercalate items ++ "]"
    | .map id =>
      let entry (e : Entry) : Option String := do
        let key ← show? s depth true e.key
        let value ← show? s depth true e.value
        return key ++ ": " ++ value
      ((s.content id).values.mapM entry).map fun items =>
        "\x7b" ++ ", ".intercalate items ++ "\x7d"
    | .function id => some (s.functionText id)
    | .native _ => some "<native fn>"

end ContractScript.Store
