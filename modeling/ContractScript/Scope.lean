/-
Scopes in the store. A name is looked up in a scope and then in the scopes
around it; a namespace likewise, in a table of its own. A qualified name goes
from namespace to namespace and is then looked up like any other.

The scope around a scope is older than it, so walking outward ends. The walk
checks this at every step, and in a store built by the operations below the
check never fails.
-/
import ContractScript.Fault
import ContractScript.Value

set_option autoImplicit false

namespace ContractScript.Store

/-- A scope of the store. -/
def scope (s : Store) (id : ScopeId) : Scope :=
  s.scopes.getD id ⟨.empty, .empty, none⟩

/-- Adds a scope with nothing in it. -/
def newScope (s : Store) (enclosing : Option ScopeId) : ScopeId × Store :=
  (s.scopes.size, { s with scopes := s.scopes.push ⟨.empty, .empty, enclosing⟩ })

/-- The bindings of the built-in functions under their own names. -/
def nativeBindings (natives : List Native) : OrderedMap String Value :=
  .ofList (natives.map fun f => (f.name, .native f))

/-- Adds a scope of its own, with the built-in functions in it. -/
def newRoot (s : Store) (natives : List Native) : ScopeId × Store :=
  (s.scopes.size, { s with scopes := s.scopes.push ⟨nativeBindings natives, .empty, none⟩ })

/-- Binds a name in a scope, over any binding it has there. -/
def define (s : Store) (id : ScopeId) (name : String) (v : Value) : Store :=
  { s with scopes := s.scopes.modify id fun c => { c with bindings := c.bindings.insert name v } }

/-- Gives a scope a namespace, over any of that name it has. -/
def defineSpace (s : Store) (id : ScopeId) (name : String) (target : ScopeId) : Store :=
  { s with scopes := s.scopes.modify id fun c => { c with spaces := c.spaces.insert name target } }

/-- The first answer of a scope and the scopes around it. -/
def findOutward {α : Type} (s : Store) (ask : ScopeId → Scope → Option α) (id : ScopeId) :
    Option α :=
  match ask id (s.scope id) with
  | some a => some a
  | none =>
    match (s.scope id).enclosing with
    | some outer => if outer < id then findOutward s ask outer else none
    | none => none
termination_by id

/-- The innermost scope that binds a name. -/
def owner? (s : Store) (id : ScopeId) (name : String) : Option ScopeId :=
  s.findOutward (fun i c => if c.bindings.contains name then some i else none) id

/-- The value of a name. -/
def value? (s : Store) (id : ScopeId) (name : String) : Option Value :=
  s.findOutward (fun _ c => c.bindings.get? name) id

/-- The namespace of a name. -/
def space? (s : Store) (id : ScopeId) (name : String) : Option ScopeId :=
  s.findOutward (fun _ c => c.spaces.get? name) id

/-- Changes the innermost binding of a name; nothing if there is none. -/
def assign? (s : Store) (id : ScopeId) (name : String) (v : Value) : Option Store :=
  (s.owner? id name).map fun owner => s.define owner name v

/-- The scope that namespaces lead to, one inside the other; on failure the
name that was not found. -/
def spaceOf (s : Store) : ScopeId → List Lexeme → Except Lexeme ScopeId
  | id, [] => .ok id
  | id, name :: rest =>
    match s.space? id name.text with
    | some next => s.spaceOf next rest
    | none => .error name

/-- The value of a qualified name. -/
def qualifiedValue (s : Store) (id : ScopeId) (spaces : List Lexeme) (name : Lexeme) :
    Except (Lexeme × Cause) Value :=
  match s.spaceOf id spaces with
  | .error missing => .error (missing, .undefinedNamespace missing.text)
  | .ok target =>
    match s.value? target name.text with
    | some v => .ok v
    | none => .error (name, .undefinedVariable name.text)

/-- A scope in one line: the names it binds and its namespaces, in order. -/
def scopeText (s : Store) (id : ScopeId) : String :=
  let c := s.scope id
  "<Environment values=[" ++ ", ".intercalate c.bindings.keys ++ "] namespaces=["
    ++ ", ".intercalate c.spaces.keys ++ "]>"

end ContractScript.Store
