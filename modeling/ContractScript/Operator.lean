/-
Operators and subscripts on values that have been evaluated.
-/
import ContractScript.Machine
import ContractScript.Text.Slice

set_option autoImplicit false

namespace ContractScript

open EvalM

/-- The lexeme of an operator at a place. -/
def BinaryOp.lexeme (op : BinaryOp) (place : Place) : Lexeme := ⟨op.symbol, place⟩

/-- The lexeme of an opening bracket at a place. -/
def bracketLexeme (place : Place) : Lexeme := ⟨"[", place⟩

/-- Applies a unary operator. -/
def UnaryOp.apply (op : UnaryOp) (place : Place) (v : Value) : EvalM Value :=
  match op, v with
  | .not, v => return .bool (!v.isTruthy)
  | .negate, .num x => return .num (-x)
  | .negate, _ => failAt ⟨op.symbol, place⟩ .operandNotNumber

/-- Addition: numbers are added, lists joined, and with a text on either side
both sides are joined as texts. -/
def addValues (depth : Nat) (place : Place) (a b : Value) : EvalM Value := do
  match a, b with
  | .num x, .num y => return .num (x + y)
  | .text x, b => return .text (x ++ (← shown depth b))
  | a, .text y => return .text ((← shown depth a) ++ y)
  | .list x, .list y =>
    let s := (← get).store
    newList (s.items x ++ s.items y)
  | _, _ => failAt (BinaryOp.add.lexeme place) .notAddable

/-- Arithmetic and comparison of numbers. -/
def BinaryOp.onNumbers (op : BinaryOp) (place : Place) (x y : Float) : EvalM Value := do
  match op with
  | .subtract => return .num (x - y)
  | .multiply => return .num (x * y)
  | .divide =>
    if Number.isZero y then failAt (op.lexeme place) .divisionByZero
    else return .num (x / y)
  | .remainder =>
    if Number.isZero y then failAt (op.lexeme place) .divisionByZero
    else
      match Number.remainder? x y with
      | some r => return .num r
      | none => throw (.defect .mathDomain)
  | .greater => return .bool (y < x)
  | .greaterEqual => return .bool (y ≤ x)
  | .less => return .bool (x < y)
  | .lessEqual => return .bool (x ≤ y)
  | .add => return .num (x + y)
  | .equal => return .bool (Number.same x y)
  | .unequal => return .bool (!Number.same x y)

/-- Applies a binary operator. -/
def BinaryOp.apply (op : BinaryOp) (depth : Nat) (place : Place) (a b : Value) : EvalM Value := do
  match op with
  | .add => addValues depth place a b
  | .equal => return .bool (← EvalM.same depth a b)
  | .unequal => return .bool (!(← EvalM.same depth a b))
  | _ =>
    match a, b with
    | .num x, .num y => op.onNumbers place x y
    | _, _ => failAt (op.lexeme place) .operandsNotNumbers

/-- The integer that a subscript stands for. -/
def subscriptOf (place : Place) (v : Value) : EvalM Int :=
  match v with
  | .num x =>
    match Number.whole? x with
    | some n => return n
    | none => failAt (bracketLexeme place) .indexNotWhole
  | _ => failAt (bracketLexeme place) .indexNotWhole

/-- A position below a size. -/
def positionIn (place : Place) (size : Nat) (key : Value) : EvalM Nat := do
  let i ← subscriptOf place key
  if 0 ≤ i && i < size then return i.toNat
  else failAt (bracketLexeme place) .indexOutOfBounds

/-- The element of a collection at a subscript. -/
def indexValue (depth : Nat) (place : Place) (collection key : Value) : EvalM Value := do
  match collection with
  | .list id =>
    let items := (← get).store.items id
    let i ← positionIn place items.size key
    return items.getD i .nil
  | .text t =>
    let i ← positionIn place t.length key
    return .text (Text.slice t i (i + 1))
  | .map id =>
    let k ← keyOf depth key
    match ((← get).store.content id).get? k with
    | some entry => return entry.value
    | none => failAt (bracketLexeme place) .keyNotFound
  | _ => failAt (bracketLexeme place) .notIndexable

/-- The two ends of a slice of something of a given size. -/
def sliceBounds (place : Place) (size : Nat) (first last : Value) : EvalM (Nat × Nat) := do
  let low ← subscriptOf place first
  let high ← subscriptOf place last
  if 0 ≤ low && low ≤ high && high ≤ size then return (low.toNat, high.toNat)
  else failAt (bracketLexeme place) .sliceOutOfRange

/-- The part of a list or text from one position up to another. -/
def sliceValue (place : Place) (collection first last : Value) : EvalM Value := do
  match collection with
  | .list id =>
    let items := (← get).store.items id
    let (low, high) ← sliceBounds place items.size first last
    newList (items.extract low high)
  | .text t =>
    let (low, high) ← sliceBounds place t.length first last
    return .text (Text.slice t low high)
  | _ => failAt (bracketLexeme place) .notSliceable

end ContractScript
