/-
Helpers for maps and indexing.

The module for maps finds a key by comparing the keys that a map shows with it, one after another,
while an index looks up the key of the value among the keys under which the entries are kept. The two
agree as long as the keys that are shown still have the keys under which their entries are kept.
-/
import ContractScript.Proofs.Module.KeySearch

set_option autoImplicit false

namespace ContractScript

open EvalM

namespace Hashmap

section Functions

variable {setup : Setup} {depth : Nat} {place : Place} {m m' : Machine} {scope : ScopeId} {id : MapId}
  {k v : Value}

/-! ## Calling the functions -/

/-- What is loaded stays so when something is added. -/
theorem Loaded.of_adds {s s' : Store} (loaded : Loaded s scope) (adds : s.Adds s') : Loaded s' scope := by
  obtain ⟨there, same⟩ := adds.scopes scope loaded.rooted.1
  refine ⟨⟨there, ?_⟩, ?_, ?_, fun f member => ?_⟩
  · rw [same]
    exact loaded.rooted.2
  · rw [same]
    exact loaded.keys
  · rw [same]
    exact loaded.len
  · obtain ⟨id, bound, found⟩ := loaded.functions f member
    refine ⟨id, ?_, ?_⟩
    · rw [same]
      exact bound
    · unfold Store.closure?
      rw [adds.functions]
      exact found

theorem length_shownKeys (s : Store) (id : MapId) : (shownKeys s id).length = (s.content id).size := by
  unfold shownKeys OrderedMap.values OrderedMap.entries OrderedMap.size
  rw [List.length_map, List.length_map, List.length_reverse]

theorem shownKeys_of_adds {s s' : Store} (adds : s.Adds s') (there : s.Has (.map id)) :
    shownKeys s' id = shownKeys s id := by
  unfold shownKeys
  rw [(adds.extends_.maps id there).2]

variable (setup depth place) in
/-- The function that returns the keys returns a new list of them. -/
theorem callValue_keys {f : FunctionId} (loaded : Loaded m.store scope)
    (declared : m.store.closure? f = some ⟨keysFunction.1, keysFunction.2, scope⟩)
    (there : m.store.Has (.map id)) :
    ∃ list m', callValue setup (depth + 6) place (.function f) [.map id] m = .ok (.list list) m' ∧
      m'.store.items list = (shownKeys m.store id).toArray ∧ m.store.Adds m'.store := by
  let m₀ : Machine := m.entered place ⟨keysFunction.1, keysFunction.2, scope⟩ [.map id]
  have adds₀ : m.store.Adds m₀.store := m.adds_entered _ _ _
  have shows₀ : m₀.store.Shows m₀.scope ⟨OrderedMap.empty.insert "map" (.map id), .empty, some scope⟩ :=
    (Store.shows_newScope m.store (some scope)).define "map" _
  have native : m₀.store.value? m₀.scope "_keys" = some (.native .keys) :=
    (shows₀.outward rfl rfl loaded.rooted.1).1.trans (Store.value?_here (loaded.of_adds adds₀).keys)
  have ran := evaluate_keys setup depth 4 native (shows₀.value?_here rfl)
  rw [shownKeys_of_adds adds₀ there] at ran
  refine ⟨_, _, callValue_of_body declared rfl rfl rfl (sequence_yield (execute_yield ran)), ?_, ?_⟩
  · exact Store.getD_push_size _ _ _
  · exact (adds₀.newList _).define (Nat.le_refl _) _ _

variable (setup depth place) in
/-- The function that looks for a key finds out whether one of those that are shown is the same. -/
theorem callValue_has {found : Value → Bool} {f : FunctionId} (loaded : Loaded m.store scope)
    (declared : m.store.closure? f = some ⟨hasFunction.1, hasFunction.2, scope⟩)
    (there : m.store.Has (.map id)) (small : (shownKeys m.store id).length < 2 ^ 53)
    (rounds : (shownKeys m.store id).length < setup.limits.rounds)
    (settles : Settles m.store ((depth + 2) / 2 + 1) k (shownKeys m.store id) found) :
    ∃ m', callValue setup (depth + 10) place (.function f) [.map id, k] m
        = .ok (.bool ((shownKeys m.store id).any found)) m' ∧ m.store.Adds m'.store ∧
      m'.scope = m.scope := by
  let m₀ : Machine := m.entered place ⟨hasFunction.1, hasFunction.2, scope⟩ [.map id, k]
  have adds₀ : m.store.Adds m₀.store := m.adds_entered _ _ _
  have shows₀ : m₀.store.Shows m₀.scope
      ⟨(OrderedMap.empty.insert "map" (.map id)).insert "key" k, .empty, some scope⟩ :=
    ((Store.shows_newScope m.store (some scope)).define "map" _).define "key" _
  have native : m₀.store.value? m₀.scope "_keys" = some (.native .keys) :=
    (shows₀.outward rfl rfl loaded.rooted.1).1.trans (Store.value?_here (loaded.of_adds adds₀).keys)
  -- the list of keys
  let list : ListId := m₀.store.lists.size
  let listing : Store := (m₀.store.newList (shownKeys m.store id).toArray).2
  have ran := evaluate_keys setup (depth + 4) 16 native (shows₀.value?_here rfl)
  rw [shownKeys_of_adds adds₀ there] at ran
  have listed : execute setup (depth + 8) (.var (word 16 "ks") (some (call 16 "_keys" ["map"]))) m₀
      = .ok .next { m₀ with store := listing.define m₀.scope "ks" (.list list) } := execute_var ran
  have shown : (listing.define m₀.scope "ks" (.list list)).Shows m₀.scope (callScope scope id k list) :=
    (((Store.Adds.refl _).newList _).shows shows₀).define "ks" _
  have adds : m.store.Adds (listing.define m₀.scope "ks" (.list list)) :=
    (adds₀.newList _).define (Nat.le_refl _) _ _
  have items : (listing.define m₀.scope "ks" (.list list)).items list = (shownKeys m.store id).toArray :=
    Store.getD_push_size _ _ _
  obtain ⟨m₁, searched, adds₁, home⟩ := execute_search setup loaded small rounds settles
    (m := { m₀ with store := listing.define m₀.scope "ks" (.list list) }) adds rfl shown items
  have ends : ∃ signal, EvalM.sequence (execute setup (depth + 8)) hasFunction.2 m₀ = .ok signal m₁ ∧
      signal.result = .bool ((shownKeys m.store id).any found) := by
    cases hit : (shownKeys m.store id).any found with
    | true =>
      rw [hit] at searched
      exact ⟨_, (sequence_next listed).trans (sequence_yield searched), rfl⟩
    | false =>
      rw [hit] at searched
      exact ⟨_, (sequence_next listed).trans ((sequence_next searched).trans (sequence_yield rfl)), rfl⟩
  obtain ⟨signal, ended, result⟩ := ends
  have called := callValue_of_body declared rfl rfl rfl ended
  rw [result] at called
  exact ⟨_, called, adds₁.define (Nat.le_refl _) _ _, rfl⟩

variable (setup depth place) in
/-- The function that reads at a key reads there if it finds the key, and returns the fallback otherwise. -/
theorem callValue_get {found : Value → Bool} {f : FunctionId} {w : Value} (loaded : Loaded m.store scope)
    (declared : m.store.closure? f = some ⟨getFunction.1, getFunction.2, scope⟩)
    (there : m.store.Has (.map id)) (small : (shownKeys m.store id).length < 2 ^ 53)
    (rounds : (shownKeys m.store id).length < setup.limits.rounds)
    (settles : Settles m.store ((depth + 2) / 2 + 1) k (shownKeys m.store id) found)
    (read : (shownKeys m.store id).any found = true → ∀ m' : Machine, m.store.Extends m'.store →
      indexValue (depth + 10) ⟨file, 24⟩ (.map id) k m' = .ok v m') :
    ∃ m', callValue setup (depth + 15) place (.function f) [.map id, k, w] m
      = .ok (if (shownKeys m.store id).any found then v else w) m' := by
  let m₀ : Machine := m.entered place ⟨getFunction.1, getFunction.2, scope⟩ [.map id, k, w]
  have adds₀ : m.store.Adds m₀.store := m.adds_entered _ _ _
  have shows₀ : m₀.store.Shows m₀.scope
      ⟨((OrderedMap.empty.insert "map" (.map id)).insert "key" k).insert "fallback" w, .empty, some scope⟩ :=
    (((Store.shows_newScope m.store (some scope)).define "map" _).define "key" _).define "fallback" _
  have loaded₀ := loaded.of_adds adds₀
  have same := shownKeys_of_adds adds₀ there
  -- the call of the function that looks for the key
  obtain ⟨g, bound, declared₀⟩ := loaded₀.functions hasFunction (by simp [functions])
  have callee : m₀.store.value? m₀.scope "has" = some (.function g) :=
    (shows₀.outward rfl rfl loaded.rooted.1).1.trans (Store.value?_here bound)
  have passed : values (evaluate setup (depth + 10)) (["map", "key"].map (name 24)) m₀
      = .ok [.map id, k] m₀ :=
    values_variables setup (depth + 9) (.cons (shows₀.value?_here rfl) (.cons (shows₀.value?_here rfl) .nil) :
      List.Forall₂ _ [word 24 "map", word 24 "key"] _)
  have settles₀ : Settles m₀.store ((depth + 2) / 2 + 1) k (shownKeys m.store id) found :=
    fun s' more => settles s' (adds₀.extends_.trans more)
  rw [← same] at small rounds settles₀
  obtain ⟨m₁, called, adds₁, home⟩ := callValue_has setup depth ⟨file, 24⟩ loaded₀ declared₀
    (there.extend adds₀.extends_ adds₀.functions) small rounds settles₀
  rw [same] at called
  have condition : evaluate setup (depth + 11) (call 24 "has" ["map", "key"]) m₀ = _ :=
    (evaluate_call (evaluate_variable setup _ callee) passed).trans called
  have shows₁ : m₁.store.Shows m₁.scope
      ⟨((OrderedMap.empty.insert "map" (.map id)).insert "key" k).insert "fallback" w, .empty, some scope⟩ := by
    rw [home]
    exact adds₁.shows shows₀
  have chosen : evaluate setup (depth + 12) (.choice (call 24 "has" ["map", "key"])
        (.index (name 24 "map") ⟨file, 24⟩ (name 24 "key")) (name 24 "fallback")) m₀
      = .ok (if (shownKeys m.store id).any found then v else w) m₁ := by
    refine (evaluate_choice condition).trans ?_
    cases hit : (shownKeys m.store id).any found with
    | true =>
      refine (evaluate_index (evaluate_variable setup _ (shows₁.value?_here rfl))
        (evaluate_variable setup _ (shows₁.value?_here rfl))).trans ?_
      exact read hit m₁ (adds₀.extends_.trans adds₁.extends_)
    | false => exact evaluate_variable setup _ (shows₁.value?_here rfl)
  exact ⟨_, callValue_of_body declared rfl rfl rfl (sequence_yield (execute_yield chosen))⟩

end Functions

end Hashmap

/-! ## Keys as they are shown and as they are kept -/

namespace Store

/-- The key of an entry is as it was when the entry was made: it still has the key under which the entry
is kept. -/
def Unchanged (s : Store) (e : Key × Entry) : Prop :=
  ∃ depth, s.key? depth e.2.key = some e.1

/-- A value is not the key of an entry, neither as it was nor as it is now. -/
def Avoids (s : Store) (k : Value) (e : Key × Entry) : Prop :=
  ∃ depth key now, s.key? depth k = some key ∧ s.key? depth e.2.key = some now ∧ key ≠ e.1 ∧ key ≠ now

section Shown

variable {s : Store} {id : MapId} {k : Value} {key : Key} {depth levels : Nat}

theorem key?_unique {k₁ k₂ : Key} {d₁ d₂ : Nat} {v : Value} (h₁ : s.key? d₁ v = some k₁)
    (h₂ : s.key? d₂ v = some k₂) : k₁ = k₂ := by
  have h := key?_mono (Nat.le_max_left d₁ d₂) h₁
  rw [key?_mono (Nat.le_max_right d₁ d₂) h₂] at h
  exact (Option.some.inj h).symm

theorem mem_shownKeys {v : Value} :
    v ∈ Hashmap.shownKeys s id ↔ ∃ e ∈ (s.content id).entries, e.2.key = v := by
  unfold Hashmap.shownKeys OrderedMap.values
  rw [List.map_map, List.mem_map]
  rfl

/-- The key that is shown for an entry has the key of the entry. -/
theorem Unchanged.key?_eq {e : Key × Entry} (unchanged : s.Unchanged e)
    (comparable : s.Comparable depth e.2.key) : s.key? depth e.2.key = some e.1 := by
  obtain ⟨found, kept⟩ := comparable.exists_key
  obtain ⟨d, same⟩ := unchanged
  rw [kept, key?_unique kept same]

/-- The key that is shown for an entry is a given one exactly if the entry is kept under that. -/
theorem key?_eq_iff {e : Key × Entry} (fits : s.Unchanged e ∨ s.Avoids k e)
    (comparable : s.Comparable depth e.2.key) (found : s.key? depth k = some key) :
    s.key? depth e.2.key = some key ↔ e.1 = key := by
  rcases fits with unchanged | ⟨d, other, now, here, shown, formerly, currently⟩
  · rw [unchanged.key?_eq comparable, Option.some.injEq]
  · obtain rfl := key?_unique here found
    exact ⟨fun same => absurd (key?_unique same shown) currently, fun same => absurd same.symm formerly⟩

/-- One of the keys that are shown is the same exactly if there is an entry under its key. -/
theorem any_shownKeys (fits : ∀ e ∈ (s.content id).entries, s.Unchanged e ∨ s.Avoids k e)
    (comparable : ∀ v ∈ Hashmap.shownKeys s id, s.Comparable depth v) (found : s.key? depth k = some key) :
    (Hashmap.shownKeys s id).any (fun v => s.key? depth v == s.key? depth k)
      = ((s.content id).get? key).isSome := by
  have same {e : Key × Entry} (member : e ∈ (s.content id).entries) :=
    key?_eq_iff (fits e member) (comparable _ (mem_shownKeys.mpr ⟨e, member, rfl⟩)) found
  rw [Bool.eq_iff_iff, List.any_eq_true, Option.isSome_iff_exists, found]
  constructor
  · rintro ⟨v, shown, hit⟩
    obtain ⟨e, member, rfl⟩ := mem_shownKeys.mp shown
    obtain rfl := (same member).mp (beq_iff_eq.mp hit)
    exact ⟨e.2, OrderedMap.get?_eq_some.mpr member⟩
  · rintro ⟨entry, present⟩
    have member := OrderedMap.get?_eq_some.mp present
    exact ⟨entry.key, mem_shownKeys.mpr ⟨_, member, rfl⟩, beq_iff_eq.mpr ((same member).mpr rfl)⟩

/-- Comparing the keys that are shown with one settles, and goes by their keys. -/
theorem Whole.settles (whole : s.Whole) (known : s.Has k)
    (comparable : ∀ v ∈ Hashmap.shownKeys s id, s.Comparable depth v) (here : s.Comparable depth k)
    (enough : depth ≤ levels) :
    Hashmap.Settles s levels k (Hashmap.shownKeys s id) fun v => s.key? depth v == s.key? depth k := by
  intro s' more v shown
  obtain ⟨e, member, rfl⟩ := mem_shownKeys.mp shown
  rw [equal?_of_extends whole more (whole.has_entry member).1 known]
  exact equal?_mono enough (agree_of_comparable (comparable _ shown) here)

end Shown

end Store

/-- Indexing a map looks up the key of a value. -/
theorem indexValue_key {levels : Nat} {place : Place} {id : MapId} {k : Value} {key : Key} {m : Machine}
    (found : m.store.key? (levels / 2 + 1) k = some key) :
    indexValue levels place (.map id) k m = match (m.store.content id).get? key with
      | some entry => .ok entry.value m
      | none => .error (.at (bracketLexeme place) .keyNotFound) m := by
  unfold indexValue
  dsimp only
  rw [bind_ok (keyOf_eq found), get_bind]
  cases (m.store.content id).get? key <;> rfl

/-- Indexing a map looks up the key that a value had, whatever has been added since. -/
theorem indexValue_map {s : Store} {depth levels : Nat} {place : Place} {id : MapId} {k : Value} {key : Key}
    {m : Machine} (whole : s.Whole) (there : s.Has (.map id)) (known : s.Has k)
    (found : s.key? depth k = some key) (enough : depth ≤ levels / 2 + 1) (more : s.Extends m.store) :
    indexValue levels place (.map id) k m = match (s.content id).get? key with
      | some entry => .ok entry.value m
      | none => .error (.at (bracketLexeme place) .keyNotFound) m := by
  have later : m.store.key? (levels / 2 + 1) k = some key :=
    (Store.key?_of_extends whole more known).trans (Store.key?_mono enough found)
  rw [indexValue_key later, (more.maps id there).2]

/-! ## Agreement -/

namespace Hashmap

/-- The call of a function in a namespace. -/
def helper (setup : Setup) (depth : Nat) (place : Place) (space : Lexeme) (text : String)
    (arguments : List Value) : EvalM Value := do
  callValue setup depth place (← lookupQualified [space] ⟨text, place⟩) arguments

/-- A name stands for the module in a state: an import of the module under a name has succeeded in the
past, and the name leads to the scope that this import has made. -/
inductive Imported (settings : Settings) (past : List Config) (space : Lexeme) (m : Machine) : Prop
  | intro {depth : Nat} {place : Place} {target : Lexeme} {before after : Machine}
      (member : ⟨depth, .execute (.load "larder/hashmap" place (some target)), before⟩ ∈ past)
      (ran : execute (Session.standard settings) depth (.load "larder/hashmap" place (some target)) before
        = .ok .next after)
      (means : m.store.space? m.scope space.text = some before.store.scopes.size)

section Helpers

variable {setup : Setup} {m : Machine} {space : Lexeme} {scope : ScopeId} {id : MapId} {k fallback : Value}
  {key : Key} {depth levels : Nat} {place : Place}

variable (setup) in
/-- A function of the module is called through the name of the import. -/
theorem helper_eq (loaded : Loaded m.store scope) (means : m.store.space? m.scope space.text = some scope)
    {f : Signature × List Stmt} (member : f ∈ functions) :
    ∃ id, m.store.closure? id = some ⟨f.1, f.2, scope⟩ ∧ ∀ depth place arguments,
      helper setup depth place space f.1.name.text arguments m
        = callValue setup depth place (.function id) arguments m := by
  obtain ⟨id, bound, declared⟩ := loaded.functions f member
  refine ⟨id, declared, fun depth place arguments => bind_ok ?_⟩
  have found : m.store.qualifiedValue m.scope [space] ⟨f.1.name.text, place⟩ = .ok (.function id) := by
    unfold Store.qualifiedValue Store.spaceOf
    rw [means]
    dsimp only [Store.spaceOf]
    rw [Store.value?_here bound]
  unfold lookupQualified
  rw [get_bind, found]
  rfl

/-- The functions of the module agree with indexing as far as keys have not changed. -/
theorem helpers_agree (loaded : Loaded m.store scope)
    (means : m.store.space? m.scope space.text = some scope) (whole : m.store.Whole)
    (there : m.store.Has (.map id)) (known : m.store.Has k)
    (comparable : ∀ v ∈ k :: shownKeys m.store id, m.store.Comparable depth v)
    (small : (m.store.content id).size < 2 ^ 53) (rounds : 2 ^ 53 ≤ setup.limits.rounds)
    (enough : 2 * depth + 15 ≤ levels) :
    (∃ list m', helper setup levels place space "keys" [.map id] m = .ok (.list list) m' ∧
      ∀ v ∈ m'.store.items list, ∃ e ∈ (m.store.content id).entries, e.2.key = v ∧
        (m.store.Unchanged e → indexValue levels place (.map id) v m' = .ok e.2.value m')) ∧
    ((∀ e ∈ (m.store.content id).entries, m.store.Unchanged e ∨ m.store.Avoids k e) →
      (∃ v m₁ m₂, indexValue levels place (.map id) k m = .ok v m ∧
        helper setup levels place space "has" [.map id, k] m = .ok (.bool true) m₁ ∧
        helper setup levels place space "get" [.map id, k, fallback] m = .ok v m₂) ∨
      (∃ m₁ m₂, indexValue levels place (.map id) k m
          = .error (.at (bracketLexeme place) .keyNotFound) m ∧
        helper setup levels place space "has" [.map id, k] m = .ok (.bool false) m₁ ∧
        helper setup levels place space "get" [.map id, k, fallback] m = .ok fallback m₂)) := by
  obtain ⟨d, rfl⟩ : ∃ d, levels = d + 15 := ⟨levels - 15, by omega⟩
  rw [List.forall_mem_cons] at comparable
  obtain ⟨here, comparable⟩ := comparable
  obtain ⟨key, found⟩ := here.exists_key
  have length : (shownKeys m.store id).length < 2 ^ 53 := by
    rw [length_shownKeys]
    exact small
  have fewer := Nat.lt_of_lt_of_le length rounds
  -- with these levels comparing a listed key with the one looked for is comparing their keys
  have settles {levels : Nat} (enough : depth ≤ levels) := whole.settles known comparable here enough
  refine ⟨?_, ?_⟩
  · obtain ⟨f, declared, same⟩ := helper_eq setup loaded means (f := keysFunction) (by simp [functions])
    obtain ⟨list, m', ran, items, adds⟩ := callValue_keys setup (d + 9) place loaded declared there
    refine ⟨list, m', (same _ _ _).trans ran, fun v listed => ?_⟩
    rw [items, List.mem_toArray] at listed
    obtain ⟨e, member, rfl⟩ := Store.mem_shownKeys.mp listed
    refine ⟨e, member, rfl, fun unchanged => ?_⟩
    have known := (whole.has_entry member).1
    -- the key in the list is what it was when the entry was put in, so it finds the entry
    have kept := unchanged.key?_eq (comparable _ listed)
    rw [indexValue_map whole there known kept (by omega) adds.extends_, OrderedMap.get?_eq_some.mpr member]
  · intro fits
    -- the search through the listed keys and the look into the map have the same answer
    have any := Store.any_shownKeys fits comparable found
    obtain ⟨f, declared, same⟩ := helper_eq setup loaded means (f := hasFunction) (by simp [functions])
    obtain ⟨g, declared', same'⟩ := helper_eq setup loaded means (f := getFunction) (by simp [functions])
    obtain ⟨m₁, ran, -⟩ := callValue_has setup (d + 5) place loaded declared there length fewer
      (settles (by omega))
    rw [any] at ran
    have index {levels : Nat} {place : Place} {m' : Machine} (enough : depth ≤ levels / 2 + 1)
        (more : m.store.Extends m'.store) :
        indexValue levels place (.map id) k m' = match (m.store.content id).get? key with
          | some entry => .ok entry.value m'
          | none => .error (.at (bracketLexeme place) .keyNotFound) m' :=
      indexValue_map whole there known found enough more
    cases present : (m.store.content id).get? key with
    | some entry =>
      rw [present] at ran
      have read {levels : Nat} {place : Place} (enough : depth ≤ levels / 2 + 1) (m' : Machine)
          (more : m.store.Extends m'.store) :
          indexValue levels place (.map id) k m' = .ok entry.value m' := by
        rw [index enough more, present]
      obtain ⟨m₂, ran'⟩ := callValue_get setup d place (w := fallback) loaded declared' there length fewer
        (settles (by omega)) fun _ m' more => read (by omega) m' more
      rw [any, present] at ran'
      exact .inl ⟨entry.value, m₁, m₂, read (by omega) m (.refl _), (same _ _ _).trans ran,
        (same' _ _ _).trans ran'⟩
    | none =>
      rw [present] at ran any
      obtain ⟨m₂, ran'⟩ := callValue_get setup d place (v := .nil) (w := fallback) loaded declared' there
        length fewer (settles (by omega)) fun hit => absurd (any.symm.trans hit) Bool.false_ne_true
      rw [any] at ran'
      refine .inr ⟨m₁, m₂, ?_, (same _ _ _).trans ran, (same' _ _ _).trans ran'⟩
      rw [index (by omega) (.refl _), present]

end Helpers

/-- Where a name stands for the module, it leads to what the import has loaded. -/
theorem Imported.loaded {settings : Settings} {host : Host} {scripts : List (String × Option String)}
    {source : String} {name : Option String} {ended : List Config} {c : Config} {space : Lexeme}
    (imported : Imported settings
      ((Session.new (Session.standard settings) host).chronicle scripts ++ ended) space c.machine)
    (reaches : ((Session.new (Session.standard settings) host).after scripts).Reaches source name ended c) :
    ∃ scope, c.machine.store.space? c.machine.scope space.text = some scope ∧
      Loaded c.machine.store scope := by
  obtain ⟨member, ran, means⟩ := imported
  obtain ⟨scope, leads, loaded⟩ := Bundle.Imported.loaded (b := bundle) (.intro member ran means) reaches
  exact ⟨scope, leads, .of_bundle loaded⟩

end Hashmap

/-- Wherever a session gets to, the functions of the module for maps agree with indexing. What is listed are
the keys of entries, and those that have not changed since can be used to index the map. If no key that has
changed is the one that is looked for, neither as it was nor as it is now, then the key is found exactly if
indexing succeeds, and what is read is then what indexing gives, or else the fallback. The keys are compared
in a number of levels, and there are enough levels left for the calls. -/
theorem Session.hashmap_agrees_with_indexing (settings : Settings) (host : Host)
    {scripts : List (String × Option String)} {source : String} {name : Option String}
    {ended : List Config} {c : Config}
    (reaches : ((Session.new (Session.standard settings) host).after scripts).Reaches source name ended c)
    {space : Lexeme} (imported : Hashmap.Imported settings
      ((Session.new (Session.standard settings) host).chronicle scripts ++ ended) space c.machine)
    {id : MapId} {k : Value} (there : c.machine.store.Has (.map id)) (known : c.machine.store.Has k)
    (small : (c.machine.store.content id).size < 2 ^ 53) {depth : Nat}
    (comparable : ∀ v ∈ k :: Hashmap.shownKeys c.machine.store id, c.machine.store.Comparable depth v)
    {levels : Nat} (enough : 2 * depth + 15 ≤ levels) (place : Place) (fallback : Value) :
    let s := c.machine.store
    let helper := Hashmap.helper (Session.standard settings) levels place space
    (∃ list m', helper "keys" [.map id] c.machine = .ok (.list list) m' ∧
      ∀ v ∈ m'.store.items list, ∃ e ∈ (s.content id).entries, e.2.key = v ∧
        (s.Unchanged e → indexValue levels place (.map id) v m' = .ok e.2.value m')) ∧
    ((∀ e ∈ (s.content id).entries, s.Unchanged e ∨ s.Avoids k e) →
      (∃ v m₁ m₂, indexValue levels place (.map id) k c.machine = .ok v c.machine ∧
        helper "has" [.map id, k] c.machine = .ok (.bool true) m₁ ∧
        helper "get" [.map id, k, fallback] c.machine = .ok v m₂) ∨
      (∃ m₁ m₂, indexValue levels place (.map id) k c.machine
          = .error (.at (bracketLexeme place) .keyNotFound) c.machine ∧
        helper "has" [.map id, k] c.machine = .ok (.bool false) m₁ ∧
        helper "get" [.map id, k, fallback] c.machine = .ok fallback m₂)) := by
  obtain ⟨scope, means, loaded⟩ := imported.loaded reaches
  have rounds : 2 ^ 53 ≤ 10 ^ 18 := by decide
  exact Hashmap.helpers_agree loaded means reaches.whole.2 there known comparable small rounds enough

/-! ## A key that changes -/

/-- A list of numbers can be compared in two levels. -/
theorem Store.comparable_numbers {s : Store} {id : ListId} {xs : List Float}
    (items : (s.items id).toList = xs.map .num) (proper : ∀ x ∈ xs, Number.isNaN x = false) :
    s.Comparable 2 (.list id) := by
  have item {v : Value} (member : v ∈ s.children (.list id)) : ∃ x, v = .num x ∧ Number.isNaN x = false := by
    have listed : v ∈ (s.items id).toList := member
    rw [items] at listed
    obtain ⟨x, there, rfl⟩ := List.mem_map.mp listed
    exact ⟨x, rfl, proper x there⟩
  refine ⟨.ofChildren (fun v member => ?_) nofun nofun, fun v member => ?_⟩
  · obtain ⟨x, rfl, here⟩ := item member
    exact .ofChildren (fun _ h => absurd h List.not_mem_nil) (fun _ same => Value.num.inj same ▸ here) nofun
  · obtain ⟨x, rfl, -⟩ := item member
    exact fun _ h => absurd h List.not_mem_nil

namespace Hashmap

/-- A script that uses a list as a key and changes it. -/
def changingScript : String :=
  "import \"larder/hashmap\" as hm; var one = [1]; var k = [1]; var m = \x7bk: 1\x7d; "
    ++ "_append(k, 2); hm::has(m, one);"

namespace Changing

/-- A word in its only line. -/
def word (text : String) : Lexeme := ⟨text, ⟨none, 1⟩⟩

/-- The item that the lists start with, and what is kept under the key. -/
def one : Value := .num (Number.ofInt 1)

/-- The script as it is read. -/
def program : Program :=
  [.load "larder/hashmap" ⟨none, 1⟩ (some (word "hm")),
    .var (word "one") (some (.list [.literal (.num (Number.ofInt 1))])),
    .var (word "k") (some (.list [.literal (.num (Number.ofInt 1))])),
    .var (word "m") (some (.map [(.variable (word "k"), .literal (.num (Number.ofInt 1)))])),
    .expression (.call (.variable (word "_append")) ⟨none, 1⟩
      [.variable (word "k"), .literal (.num (Number.ofInt 2))]),
    .expression (.call (.qualified [word "hm"] (word "has")) ⟨none, 1⟩
      [.variable (word "m"), .variable (word "one")])]

theorem read : Program.ofSource false none changingScript = (program, []) := by
  decide +kernel

/-- The key of a list of one. -/
def key : Key := .list [.num (Number.canonicalBits (Number.ofInt 1))]

/-- The session in which it is run first. -/
def session : Session := Session.new (Session.standard {}) Host.bare

/-- The state in which it starts. -/
def start : Machine := (session.after []).ready

/-- The state after the import. -/
def loaded : Machine := Hashmap.imported (Session.standard {}) "hm" start

/-- The state with one list. -/
def first : Machine :=
  { loaded with store := (loaded.store.newList #[one]).2.define 0 "one" (.list 0) }

/-- The state with two lists that are alike. -/
def second : Machine :=
  { first with store := (first.store.newList #[one]).2.define 0 "k" (.list 1) }

/-- The state with a map, in which the second list is a key. -/
def mapped : Machine :=
  { second with store := (second.store.newMap (.insert .empty key ⟨.list 1, one⟩)).2.define 0 "m" (.map 0) }

/-- The state after the second list has been changed. -/
def changed : Machine :=
  { mapped with store := mapped.store.push 1 (.num (Number.ofInt 2)) }

theorem load_first : runTop (Session.standard {}) program[0] start = .ok .nil loaded :=
  bind_ok (Hashmap.execute_load {} 997 ⟨none, 1⟩ (word "hm") List.not_mem_nil)

theorem map_key : runTop (Session.standard {}) program[3] second = .ok .nil mapped := by
  have named : second.store.value? 0 "k" = some (.list 1) := Store.value?_here rfl
  have listed : entries 998 (evaluate (Session.standard {}) 998) .empty
      [(.variable (word "k"), .literal (.num (Number.ofInt 1)))] second
      = .ok (.insert .empty key ⟨.list 1, one⟩) second := by
    refine (bind_ok (evaluate_variable _ 997 named)).trans ((bind_ok rfl).trans ?_)
    exact (bind_ok (show keyOf 998 (.list 1) second = .ok key second from rfl)).trans rfl
  have made : evaluate (Session.standard {}) 999
      (.map [(.variable (word "k"), .literal (.num (Number.ofInt 1)))]) second
      = .ok (.map 0)
        { second with store := (second.store.newMap (.insert .empty key ⟨.list 1, one⟩)).2 } := by
    rw [evaluate]
    exact bind_ok listed
  exact bind_ok (execute_var made)

theorem append : runTop (Session.standard {}) program[4] mapped = .ok (.list 1) changed := by
  have callee : evaluate (Session.standard {}) 999 (.variable (word "_append")) mapped
      = .ok (.native .append) mapped := evaluate_variable _ _ (Store.value?_here rfl)
  have passed : values (evaluate (Session.standard {}) 999)
      [.variable (word "k"), .literal (.num (Number.ofInt 2))] mapped
      = .ok [.list 1, .num (Number.ofInt 2)] mapped :=
    values_cons (evaluate_variable _ _ (Store.value?_here rfl)) rfl
  exact bind_ok ((evaluate_call callee passed).trans (callValue_native rfl rfl rfl))

/-- Once the map is made, the name stands for the module. -/
theorem reaches {ended : List Config} {c : Config}
    (further : Program.Reaches (Session.standard {}) (program.drop 4) mapped ended c)
    (means : c.machine.store.space? c.machine.scope "hm" = some 1) :
    ∃ ended, (session.after []).Reaches changingScript none ended c ∧
      Imported {} (session.chronicle [] ++ ended) (word "hm") c.machine := by
  have steps := Program.Reaches.later load_first
    (.later (show runTop (Session.standard {}) program[1] loaded = .ok .nil first from rfl)
      (.later (show runTop (Session.standard {}) program[2] first = .ok .nil second from rfl)
        (.later map_key further)))
  have ran := Hashmap.execute_load {} 997 ⟨none, 1⟩ (word "hm") (m := start) List.not_mem_nil
  refine ⟨_, ⟨program, read, steps⟩, .intro (List.mem_append_right _ (List.mem_append_left _ ?_)) ran means⟩
  exact Config.mem_chronicle.mpr ⟨[], .here⟩

theorem means {s : Store} (bound : (s.scope 0).spaces.get? "hm" = some 1) : s.space? 0 "hm" = some 1 := by
  unfold Store.space?
  rw [Store.findOutward, bound]

theorem comparable_mapped : ∀ v ∈ Value.list 0 :: shownKeys mapped.store 0, mapped.store.Comparable 2 v := by
  have proper : ∀ x ∈ [Number.ofInt 1], Number.isNaN x = false := by decide +kernel
  exact List.forall_mem_cons.mpr ⟨Store.comparable_numbers rfl proper,
    List.forall_mem_singleton.mpr (Store.comparable_numbers rfl proper)⟩

theorem comparable_changed :
    changed.store.Comparable 2 (.list 0) ∧ ∀ v ∈ shownKeys changed.store 0, changed.store.Comparable 2 v := by
  have proper : ∀ x ∈ [Number.ofInt 1, Number.ofInt 2], Number.isNaN x = false := by decide +kernel
  have proper' : ∀ x ∈ [Number.ofInt 1], Number.isNaN x = false := by decide +kernel
  exact ⟨Store.comparable_numbers rfl proper',
    List.forall_mem_singleton.mpr (Store.comparable_numbers rfl proper)⟩

/-- A call of a function of the module. -/
def call (text : String) (arguments : List Value) : EvalM Value :=
  helper (Session.standard {}) 999 ⟨none, 1⟩ (word "hm") text arguments

/-- Indexing the map. -/
def index (k : Value) : EvalM Value :=
  indexValue 999 ⟨none, 1⟩ (.map 0) k

/-- Before the list is changed, the functions agree with indexing by a list like it. -/
theorem agrees_before : ∃ ended c list m₁ m₂ m₃,
    (session.after []).Reaches changingScript none ended c ∧
    Imported {} (session.chronicle [] ++ ended) (word "hm") c.machine ∧
    call "keys" [.map 0] c.machine = .ok (.list list) m₁ ∧
    (∀ v ∈ m₁.store.items list, ∃ w, index v m₁ = .ok w m₁) ∧
    index (.list 0) c.machine = .ok one c.machine ∧
    call "has" [.map 0, .list 0] c.machine = .ok (.bool true) m₂ ∧
    call "get" [.map 0, .list 0, .nil] c.machine = .ok one m₃ := by
  obtain ⟨ended, reaches, imported⟩ := reaches (.first .here) (means rfl)
  have there : mapped.store.Has (.map 0) := Nat.zero_lt_one
  have known : mapped.store.Has (.list 0) := Nat.zero_lt_two
  have enough : 2 * 2 + 15 ≤ 999 := by decide
  have unchanged : ∀ e ∈ (mapped.store.content 0).entries, mapped.store.Unchanged e :=
    List.forall_mem_singleton.mpr ⟨2, rfl⟩
  obtain ⟨⟨list, m₁, listed, usable⟩, agree⟩ := Session.hashmap_agrees_with_indexing {} Host.bare reaches
    imported there known (by decide) comparable_mapped enough ⟨none, 1⟩ .nil
  have indexed : index (.list 0) mapped = .ok one mapped := rfl
  rcases agree fun e member => .inl (unchanged e member) with
    ⟨v, m₂, m₃, same, found, read⟩ | ⟨m₂, m₃, failed, -⟩
  · cases indexed.symm.trans same
    refine ⟨ended, _, list, m₁, m₂, m₃, reaches, imported, listed, fun v member => ?_, indexed, found, read⟩
    obtain ⟨e, entry, -, usable⟩ := usable v member
    exact ⟨_, usable (unchanged e entry)⟩
  · cases indexed.symm.trans failed

/-- After it has been changed, they do not: what indexing finds is not found, and what is listed cannot
be used to index the map. -/
theorem disagrees_after : ∃ ended c list v m₁ m₂,
    (session.after []).Reaches changingScript none ended c ∧
    Imported {} (session.chronicle [] ++ ended) (word "hm") c.machine ∧
    c.machine.store.Plain (.list 0) ∧ (∀ v ∈ shownKeys c.machine.store 0, c.machine.store.Plain v) ∧
    index (.list 0) c.machine = .ok one c.machine ∧
    call "has" [.map 0, .list 0] c.machine = .ok (.bool false) m₁ ∧
    call "keys" [.map 0] c.machine = .ok (.list list) m₂ ∧ v ∈ m₂.store.items list ∧
    index v m₂ = .error (.at (bracketLexeme ⟨none, 1⟩) .keyNotFound) m₂ := by
  obtain ⟨ended, reaches, imported⟩ := reaches (.later append (.first .here)) (means rfl)
  obtain ⟨scope, means, loaded⟩ := imported.loaded reaches
  have whole : changed.store.Whole := reaches.whole.2
  have there : changed.store.Has (.map 0) := Nat.zero_lt_one
  have known : changed.store.Has (.list 0) := Nat.zero_lt_two
  have known' : changed.store.Has (.list 1) := Nat.one_lt_two
  obtain ⟨comparable, shown⟩ := comparable_changed
  have alone : (shownKeys changed.store 0).length ≤ 1 := Nat.le_refl 1
  have small : (shownKeys changed.store 0).length < 2 ^ 53 := Nat.lt_of_le_of_lt alone (by decide)
  have rounds : (shownKeys changed.store 0).length < 10 ^ 18 := Nat.lt_of_le_of_lt alone (by decide)
  have settles := whole.settles known shown comparable (show 2 ≤ (989 + 2) / 2 + 1 by decide)
  obtain ⟨f, declared, same⟩ := helper_eq (Session.standard {}) loaded means (f := hasFunction)
    (by simp [functions])
  obtain ⟨m₁, found, -⟩ := callValue_has (Session.standard {}) 989 ⟨none, 1⟩ loaded declared there small
    rounds settles
  obtain ⟨g, declared', same'⟩ := helper_eq (Session.standard {}) loaded means (f := keysFunction)
    (by simp [functions])
  obtain ⟨list, m₂, listed, items, adds⟩ := callValue_keys (Session.standard {}) 993 ⟨none, 1⟩ loaded
    declared' there
  -- the key that is listed is the list as it is now, which the map was never given
  have now : changed.store.key? 2 (.list 1) = some (.list
      [.num (Number.canonicalBits (Number.ofInt 1)), .num (Number.canonicalBits (Number.ofInt 2))]) := rfl
  refine ⟨ended, _, list, .list 1, m₁, m₂, reaches, imported, comparable.plain,
    fun v member => (shown v member).plain, rfl, (same _ _ _).trans found, (same' _ _ _).trans listed, ?_,
    indexValue_map whole there known' now (by decide) adds.extends_⟩
  rw [items]
  exact List.mem_toArray.mpr (List.mem_singleton_self _)

end Changing

end Hashmap

end ContractScript
