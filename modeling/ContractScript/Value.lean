/-
Values and where they are kept. Numbers, texts and truth values are themselves;
lists, maps and functions are references into a store, so that two names can
share one list and a list can contain itself.

The store also holds the scopes. A scope has bindings, namespaces, and at most
one scope around it, which is always an older one.
-/
import ContractScript.Key
import ContractScript.Number.Binary
import ContractScript.OrderedMap
import ContractScript.Program

set_option autoImplicit false

namespace ContractScript

/-- Refers to a list of the store. -/
abbrev ListId := Nat

/-- Refers to a map of the store. -/
abbrev MapId := Nat

/-- Refers to a function of the store. -/
abbrev FunctionId := Nat

/-- Refers to a scope of the store. -/
abbrev ScopeId := Nat

/-- Values. -/
inductive Value where
  | nil
  | bool (value : Bool)
  | num (value : Float)
  | text (value : String)
  | list (id : ListId)
  | map (id : MapId)
  | function (id : FunctionId)
  | native (function : Native)
deriving Repr, Inhabited

/-- An entry of a map: the key as it is shown, and the value. -/
structure Entry where
  key : Value
  value : Value
deriving Repr, Inhabited

/-- A function value: what was declared, and the scope it was declared in. -/
structure Closure where
  signature : Signature
  body : List Stmt
  scope : ScopeId
deriving Repr, Inhabited

/-- A scope. -/
structure Scope where
  bindings : OrderedMap String Value
  spaces : OrderedMap String ScopeId
  enclosing : Option ScopeId
deriving Repr, Inhabited

/-- Everything that values and names refer to. -/
structure Store where
  lists : Array (Array Value)
  maps : Array (OrderedMap Key Entry)
  functions : Array Closure
  scopes : Array Scope
deriving Inhabited

/-- The value of a literal. -/
def Literal.value : Literal → Value
  | .nil => .nil
  | .bool b => .bool b
  | .num x => .num x
  | .text s => .text s

/-- Everything counts as true but nil, false and zero. -/
def Value.isTruthy : Value → Bool
  | .nil => false
  | .bool b => b
  | .num x => !Number.isZero x
  | _ => true

/-- Whether a value is a number; truth values are not. -/
def Value.isNumber : Value → Bool
  | .num _ => true
  | _ => false

namespace Store

/-- A store with nothing in it. -/
def empty : Store := ⟨#[], #[], #[], #[]⟩

/-! ## Lists -/

/-- The items of a list. -/
def items (s : Store) (id : ListId) : Array Value :=
  s.lists.getD id #[]

/-- Adds a list. -/
def newList (s : Store) (items : Array Value) : ListId × Store :=
  (s.lists.size, { s with lists := s.lists.push items })

/-- Appends to a list. -/
def push (s : Store) (id : ListId) (v : Value) : Store :=
  { s with lists := s.lists.modify id (·.push v) }

/-! ## Maps -/

/-- The content of a map. -/
def content (s : Store) (id : MapId) : OrderedMap Key Entry :=
  s.maps.getD id .empty

/-- Adds a map. -/
def newMap (s : Store) (content : OrderedMap Key Entry) : MapId × Store :=
  (s.maps.size, { s with maps := s.maps.push content })

/-- Writes an entry of a map; an entry with the same key keeps its position and
shows the new key. -/
def put (s : Store) (id : MapId) (k : Key) (e : Entry) : Store :=
  { s with maps := s.maps.modify id (·.insert k e) }

/-! ## Functions -/

/-- The declaration and scope of a function. -/
def closure? (s : Store) (id : FunctionId) : Option Closure :=
  s.functions[id]?

/-- Adds a function. -/
def newFunction (s : Store) (c : Closure) : FunctionId × Store :=
  (s.functions.size, { s with functions := s.functions.push c })

/-! ## Keys

A list or map can contain itself, so computing its key, comparing it or showing
it may never end. Each of these has a budget of levels and yields nothing when
that is used up. -/

/-- The key of a value. -/
def key? (s : Store) : Nat → Value → Option Key
  | 0, _ => none
  | depth + 1, v =>
    match v with
    | .nil => some .nil
    | .bool b => some (.bool b)
    | .num x => some (.num (Number.canonicalBits x))
    | .text t => some (.text t)
    | .list id => ((s.items id).toList.mapM (key? s depth)).map .list
    | .map id =>
      ((s.content id).entries.mapM fun e => (key? s depth e.2.value).map fun k => (e.1, k)).map
        .ofPairs
    | .function id => some (.function id)
    | .native f => some (.native f)

/-- Whether two values are the same key. No key with a number that differs from
itself is the same as another. -/
def sameKey? (s : Store) (depth : Nat) (a b : Value) : Option Bool :=
  match s.key? depth a, s.key? depth b with
  | some k, some l => some (k == l && !k.hasNaN)
  | _, _ => none

/-! ## Equality -/

/-- Whether all pairs satisfy a test that may fail to answer; later pairs are
not looked at once one does not satisfy it. -/
def allPairs? {α : Type} (test : α → α → Option Bool) : List (α × α) → Option Bool
  | [] => some true
  | (a, b) :: rest =>
    match test a b with
    | some true => allPairs? test rest
    | answer => answer

/-- Whether two maps have the same keys. -/
def sameKeys (a b : OrderedMap Key Entry) : Bool :=
  a.size == b.size && a.keys.all b.contains

/-- The values of two maps with the same keys, side by side. -/
def valuePairs (a b : OrderedMap Key Entry) : List (Value × Value) :=
  a.entries.filterMap fun e => (b.get? e.1).map fun other => (e.2.value, other.value)

/-- Equality of values: lists and maps by content, functions by identity,
everything else by value and kind. -/
def equal? (s : Store) : Nat → Value → Value → Option Bool
  | 0, _, _ => none
  | depth + 1, a, b =>
    match a, b with
    | .nil, .nil => some true
    | .bool x, .bool y => some (x == y)
    | .num x, .num y => some (Number.same x y)
    | .text x, .text y => some (x == y)
    | .list x, .list y =>
      let xs := s.items x
      let ys := s.items y
      if xs.size == ys.size then allPairs? (equal? s depth) (xs.toList.zip ys.toList)
      else some false
    | .map x, .map y =>
      let xs := s.content x
      let ys := s.content y
      if sameKeys xs ys then allPairs? (equal? s depth) (valuePairs xs ys) else some false
    | .function x, .function y => some (x == y)
    | .native x, .native y => some (x == y)
    | _, _ => some false

end Store

end ContractScript
