/-
How the helpers for maps look for a key.

The keys that a map shows are listed, and the list is searched for the key that is looked for.
-/
import ContractScript.Proofs.Module.Hashmap
import ContractScript.Proofs.Module.HelperCode

set_option autoImplicit false

namespace ContractScript

open EvalM

namespace Hashmap

/-- The keys of a map as they are shown. -/
def shownKeys (s : Store) (id : MapId) : List Value :=
  (s.content id).values.map Entry.key

/-- Comparing each of some keys with one has an answer, whatever is added to the store. -/
def Settles (s : Store) (levels : Nat) (k : Value) (ks : List Value) (found : Value → Bool) : Prop :=
  ∀ s', s.Extends s' → ∀ v ∈ ks, s'.equal? levels v k = some (found v)

section Functions

variable {setup : Setup} {depth : Nat} {m : Machine} {scope : ScopeId} {id : MapId} {k : Value}

variable (setup depth) in
/-- The call of the built-in function that lists keys. -/
theorem evaluate_keys (line : Nat) (native : m.store.value? m.scope "_keys" = some (.native .keys))
    (argument : m.store.value? m.scope "map" = some (.map id)) :
    evaluate setup (depth + 3) (call line "_keys" ["map"]) m
      = .ok (.list m.store.lists.size)
        { m with store := (m.store.newList (shownKeys m.store id).toArray).2 } := by
  have passed : values (evaluate setup (depth + 2)) (["map"].map (name line)) m = .ok [.map id] m :=
    values_variables setup (depth + 1) (.cons argument .nil : List.Forall₂ _ [word line "map"] _)
  have ran : Native.keys.call setup depth [.map id]
      { m with frames := ⟨Native.keys.name, ⟨file, line⟩⟩ :: m.frames }
      = .ok (.list m.store.lists.size)
        { m with
          store := (m.store.newList (shownKeys m.store id).toArray).2
          frames := ⟨Native.keys.name, ⟨file, line⟩⟩ :: m.frames } := rfl
  exact (evaluate_call (evaluate_variable setup _ native) passed).trans (callValue_native rfl rfl ran)

/-- The scope of a call of the function that looks for a key. -/
def callScope (scope : ScopeId) (id : MapId) (k : Value) (list : ListId) : Scope :=
  ⟨((OrderedMap.empty.insert "map" (.map id)).insert "key" k).insert "ks" (.list list), .empty, some scope⟩

variable (setup) in
/-- The search finds out whether one of the keys is the same. -/
theorem execute_search {base : Store} {ks : List Value} {list : ListId} {found : Value → Bool}
    (loaded : Loaded base scope) (small : ks.length < 2 ^ 53) (rounds : ks.length < setup.limits.rounds)
    (settles : Settles base ((depth + 2) / 2 + 1) k ks found) (adds : base.Adds m.store)
    (home : m.scope = base.scopes.size) (shown : m.store.Shows m.scope (callScope scope id k list))
    (items : m.store.items list = ks.toArray) :
    ∃ m', execute setup (depth + 8) search m
        = .ok (if ks.any found then .yield (.bool true) else .next) m' ∧
      base.Adds m'.store ∧ m'.scope = m.scope := by
  have called : HelperCode.Called base scope (callScope scope id k list) [.len] :=
    ⟨loaded.rooted.1, List.forall_mem_singleton.mpr loaded.len, rfl, List.forall_mem_singleton.mpr rfl⟩
  have seeks : HelperCode.Seeks base scope (callScope scope id k list) "ks" "key" list ks k :=
    ⟨called, rfl, rfl, by decide, small⟩
  obtain ⟨s', searched, adds'⟩ := seeks.execute_search ⟨file, 17⟩ ⟨file, 18⟩ adds shown home items rounds
    settles
  exact ⟨_, searched, adds', rfl⟩

end Functions

end Hashmap

end ContractScript
