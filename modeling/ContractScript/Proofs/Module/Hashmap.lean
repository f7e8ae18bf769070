/-
The module with helpers for maps, as it is read and as it is imported.

Its source declares five functions and nothing else. An import under a name leaves a scope of its
own with the built-in functions and these five in it. Their code assigns to one name, a loop
variable, which is not bound there, and imports nothing: the import seals its scope.
-/
import ContractScript.Proofs.Module.Bundled

set_option autoImplicit false

namespace ContractScript

open EvalM

/-! ## The module -/

namespace Hashmap

/-- The name under which reports show the module. -/
def file : Option String := some "larder/hashmap"

/-- A word in a line of the module. -/
def word (line : Nat) (text : String) : Lexeme := ⟨text, ⟨file, line⟩⟩

/-- A name in a line of the module. -/
def name (line : Nat) (text : String) : Expr := .variable (word line text)

/-- A call with names as arguments. -/
def call (line : Nat) (callee : String) (arguments : List String) : Expr :=
  .call (name line callee) ⟨file, line⟩ (arguments.map (name line))

/-- The head of a function without contracts. -/
def signature (line : Nat) (text : String) (parameters : List String) : Signature :=
  ⟨word line text, parameters.map (word line), .none, .none⟩

/-- A function that does nothing but return a value. -/
def returning (line : Nat) (text : String) (parameters : List String) (value : Expr) :
    Signature × List Stmt :=
  (signature line text parameters, [.yield ⟨file, line + 1⟩ (some value)])

/-- Whether there is another key to look at. -/
def more : Expr := .binary .less ⟨file, 17⟩ (name 17 "i") (call 17 "len" ["ks"])

/-- Whether a key is the one that is looked for. -/
def matching : Expr :=
  .binary .equal ⟨file, 18⟩ (.index (name 18 "ks") ⟨file, 18⟩ (name 18 "i")) (name 18 "key")

/-- The step to the next key. -/
def advance : Stmt :=
  .expression (.assign (word 17 "i")
    (.binary .add ⟨file, 17⟩ (name 17 "i") (.literal (.num (Number.ofInt 1)))))

/-- What is done with each key. -/
def round : Stmt :=
  .block [.block [.branch matching (.yield ⟨file, 18⟩ (some (.literal (.bool true)))) none], advance]

/-- The loop over the keys. -/
def search : Stmt :=
  .block [.var (word 17 "i") (some (.literal (.num (Number.ofInt 0)))), .loop more round]

/-- The function that returns the keys. -/
def keysFunction : Signature × List Stmt :=
  returning 3 "keys" ["map"] (call 4 "_keys" ["map"])

/-- The function that looks for a key. -/
def hasFunction : Signature × List Stmt :=
  (signature 15 "has" ["map", "key"],
    [.var (word 16 "ks") (some (call 16 "_keys" ["map"])), search,
      .yield ⟨file, 20⟩ (some (.literal (.bool false)))])

/-- The function that reads at a key, if it is there. -/
def getFunction : Signature × List Stmt :=
  returning 23 "get" ["map", "key", "fallback"]
    (.choice (call 24 "has" ["map", "key"]) (.index (name 24 "map") ⟨file, 24⟩ (name 24 "key"))
      (name 24 "fallback"))

/-- The functions of the module. -/
def functions : List (Signature × List Stmt) :=
  [keysFunction, returning 7 "values" ["map"] (call 8 "_values" ["map"]),
    returning 11 "put" ["map", "key", "value"] (call 12 "_put" ["map", "key", "value"]),
    hasFunction, getFunction]

/-- The module as a loader finds it. -/
def source : ModuleSource := ⟨Larder.hashmap, "larder/hashmap", none⟩

theorem read_source : source.read = (functions.map fun f => .function f.1 f.2, []) := by
  refine (Program.ofSource_ofLines false file _).trans ?_
  decide +kernel

/-! ## The import -/

/-- A scope has the functions of the module in it, and the built-in functions that they use. -/
structure Loaded (s : Store) (scope : ScopeId) : Prop where
  rooted : s.Rooted scope
  keys : (s.scope scope).bindings.get? "_keys" = some (.native .keys)
  len : (s.scope scope).bindings.get? "len" = some (.native .len)
  functions : ∀ f ∈ functions, ∃ id, (s.scope scope).bindings.get? f.1.name.text = some (.function id) ∧
    s.closure? id = some ⟨f.1, f.2, scope⟩

/-- The state in which the import under a name ends. -/
def imported (setup : Setup) (space : String) (m : Machine) : Machine :=
  let i : NamedImport := ⟨setup, "larder/hashmap", space, source⟩
  { m with
    store := (i.opened m).store.declare m.store.scopes.size functions
    events := i.events ++ m.events }

/-- Wherever modules are looked for, the path means this one. -/
theorem source?_eq (settings : Settings) (site : Module.Site) (base : Option String) :
    (Import.mk site base "larder/hashmap").source? (Session.standard settings) = some source :=
  source?_of_claims "hashmap" settings site base (List.find?_cons_of_pos (by decide +kernel))
    (by decide +kernel) (by decide +kernel) (by decide +kernel) (by decide +kernel) rfl (by decide +kernel)

/-- No name of the module, and no built-in function, is the loop variable. -/
theorem names_distinct : (functions.map fun f => f.1.name.text).Nodup := by
  decide

/-- The code of the module assigns to its loop variable and to nothing else. -/
theorem functions_spare (kept : String → Bool) (free : kept "i" = false) :
    ∀ f ∈ functions, f.1.spares kept && Stmt.allSpare kept f.2 := by
  have assigns : kept (word 17 "i").text = false := free
  intro f member
  simp only [functions, List.mem_cons, List.not_mem_nil, or_false] at member
  rcases member with rfl | rfl | rfl | rfl | rfl
  all_goals
    simp [keysFunction, hasFunction, getFunction, returning, signature, Clauses.none, call, name, search,
      round, more, matching, advance, Signature.spares, Stmt.allSpare, Stmt.spares, Stmt.optionSpares,
      Expr.spares, Expr.allSpare, assigns]

/-- The module with its functions. -/
def bundle : Bundle where
  path := "larder/hashmap"
  text := Larder.hashmap
  functions := functions
  found := source?_eq
  read := read_source
  nonempty := List.cons_ne_nil _ _
  distinct := names_distinct
  uncounted := by decide
  spare := functions_spare

theorem execute_load (settings : Settings) (depth : Nat) (place : Place) (space : Lexeme) {m : Machine}
    (idle : "larder/hashmap" ∉ m.importing) :
    execute (Session.standard settings) (depth + 3) (.load "larder/hashmap" place (some space)) m
      = .ok .next (imported (Session.standard settings) space.text m) :=
  Bundle.execute_load (b := bundle) depth place space idle

/-- The functions that are used of what is loaded. -/
theorem Loaded.of_bundle {s : Store} {scope : ScopeId} (loaded : bundle.Loaded s scope) :
    Loaded s scope where
  rooted := loaded.rooted
  keys := loaded.natives "_keys" (by decide)
  len := loaded.natives "len" (by decide)
  functions := loaded.functions

end Hashmap

end ContractScript
