/-
The module with helpers for lists, as it is read.

Its source declares four functions. Three of them have a loop with a counter: one looks for a value
among the items of a list, and two gather a new list item by item, one counting up and one counting
down. The two are one piece of code, with a counter and an item of their own.
-/
import ContractScript.Proofs.Module.Bundled
import ContractScript.Proofs.Module.HelperCode

set_option autoImplicit false

namespace ContractScript

open EvalM HelperCode

namespace ListHelpers

/-! ## The functions -/

/-- The name under which reports show the module. -/
def file : Option String := some "larder/list"

/-- A line of the module. -/
def line (n : Nat) : Place := ⟨file, n⟩

/-- The head of a function. -/
def signature (n : Nat) (text : String) (parameters : List String) (before : Clauses) : Signature :=
  ⟨word (line n) text, parameters.map (word (line n)), before, .none⟩

/-- Counting down to zero from the last position of a list. -/
def downFrom (place : Place) : Counter :=
  ⟨.binary .subtract place (length place "items") (whole 1),
    .binary .greaterEqual place (name place "i") (whole 0),
    .binary .subtract place (name place "i") (whole 1)⟩

/-- The body of a function that gathers items in a new list. -/
def gathering (n : Nat) (counter : Counter) (item : Expr) : List Stmt :=
  [.var (word (line n) "out") (some (.list [])),
    counter.loop (line (n + 1))
      [.expression (call (line (n + 2)) .append [name (line (n + 2)) "out", item])],
    .yield (line (n + 4)) (some (name (line (n + 4)) "out"))]

/-- The function that appends to a list. -/
def appendFunction : Signature × List Stmt :=
  (signature 3 "append" ["items", "value"] .none,
    [.yield (line 4) (some (call (line 4) .append [name (line 4) "items", name (line 4) "value"]))])

/-- The function that looks for a value. -/
def containsFunction : Signature × List Stmt :=
  (signature 7 "contains" ["items", "value"] .none,
    [search (line 8) (line 9) "items" "value", .yield (line 11) (some (.literal (.bool false)))])

/-- What is reported where there are to be fewer than no numbers. -/
def refusal : String := "range needs a non-negative count"

/-- The function that gathers the numbers below a bound. -/
def rangeFunction : Signature × List Stmt :=
  (signature 14 "range" ["n"]
      ⟨[.binary .greaterEqual (line 15) (name (line 15) "n") (whole 0)], some refusal⟩,
    gathering 17 (upTo (line 18) (name (line 18) "n")) (name (line 19) "i"))

/-- The function that gathers the items of a list from its end. -/
def reverseFunction : Signature × List Stmt :=
  (signature 24 "reverse" ["items"] .none,
    gathering 25 (downFrom (line 26)) (item (line 27) "items"))

/-- The functions of the module. -/
def functions : List (Signature × List Stmt) :=
  [appendFunction, containsFunction, rangeFunction, reverseFunction]

/-! ## The module -/

theorem read_source : ModuleSource.read ⟨Larder.list, "larder/list", none⟩
    = (functions.map fun f => .function f.1 f.2, []) := by
  refine (Program.ofSource_ofLines false file _).trans ?_
  decide +kernel

/-- Wherever modules are looked for, the path means this one. -/
theorem source?_eq (settings : Settings) (site : Module.Site) (base : Option String) :
    (Import.mk site base "larder/list").source? (Session.standard settings)
      = some ⟨Larder.list, "larder/list", none⟩ :=
  source?_of_claims "list" settings site base (List.find?_cons_of_pos (by decide +kernel))
    (by decide +kernel) (by decide +kernel) (by decide +kernel) (by decide +kernel) rfl (by decide +kernel)

section Spares

variable {kept : String → Bool}

theorem spares_call (place : Place) (f : Native) (arguments : List Expr) :
    (call place f arguments).spares kept = Expr.allSpare kept arguments := by
  simp [call, name, Expr.spares]

theorem spares_loop (free : kept "i" = false) (counter : Counter) (place : Place) (body : List Stmt) :
    (counter.loop place body).spares kept = (counter.start.spares kept && (counter.more.spares kept
      && (Stmt.allSpare kept body && counter.step.spares kept))) := by
  have assigns : kept (word place "i").text = false := free
  simp [Counter.loop, Stmt.counting, Stmt.round, Stmt.spares, Stmt.allSpare, Expr.spares, assigns]

/-- The code of the module assigns to its loop variable and to nothing else. -/
theorem functions_spare (free : kept "i" = false) :
    ∀ f ∈ functions, f.1.spares kept && Stmt.allSpare kept f.2 := by
  intro f member
  simp only [functions, List.mem_cons, List.not_mem_nil, or_false] at member
  rcases member with rfl | rfl | rfl | rfl
  all_goals
    simp [appendFunction, containsFunction, rangeFunction, reverseFunction, gathering, search,
      spares_loop free, spares_call, upTo, downFrom, inspecting, matching, item, length, whole, name,
      signature, Clauses.none, Signature.spares, Stmt.allSpare, Stmt.spares, Stmt.optionSpares, Expr.spares,
      Expr.allSpare]

end Spares

/-- The module with its functions. -/
def bundle : Bundle where
  path := "larder/list"
  text := Larder.list
  functions := functions
  found := source?_eq
  read := read_source
  nonempty := List.cons_ne_nil _ _
  distinct := by decide
  uncounted := by decide
  spare := fun _ free => functions_spare free

end ListHelpers

end ContractScript
