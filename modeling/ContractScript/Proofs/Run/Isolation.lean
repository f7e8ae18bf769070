/-
An import under a name leaves everything alone that was there before.

The code of the module is arbitrary: it calls functions, imports other modules, changes
lists and maps. But it starts in a scope of its own, with the built-in functions in it and
nothing around it, and whatever it can get at from there is new. So a bound is drawn at
the state in which the import starts: what is kept below it is old, what is above it is
new, and new things refer to new things only. Reading and writing above the bound stays
above the bound. The one old thing that changes is the entry under the name of the import
in the current scope, and that is written before any code of the module is run.
-/
import ContractScript.Proofs.Program.Dropping
import ContractScript.Proofs.Run.Trail

set_option autoImplicit false

namespace ContractScript

open EvalM

/-! ## Old cells and new cells -/

/-- An array begins with the cells of an older one, and what follows them is as demanded. -/
structure Confined {α : Type} (base cells : Array α) (good : α → Prop) : Prop where
  size : base.size ≤ cells.size
  old : ∀ i, i < base.size → cells[i]? = base[i]?
  new : ∀ i a, base.size ≤ i → cells[i]? = some a → good a

namespace Confined

variable {α : Type} {base cells : Array α} {good : α → Prop}

theorem start (base : Array α) (good : α → Prop) : Confined base base good where
  size := Nat.le_refl _
  old _ _ := rfl
  new i a high found := by
    rw [Array.getElem?_eq_none high] at found
    cases found

theorem push (h : Confined base cells good) {a : α} (ha : good a) :
    Confined base (cells.push a) good where
  size := by
    rw [Array.size_push]
    exact Nat.le_succ_of_le h.size
  old i low := by
    have below : i ≠ cells.size := by
      have := h.size
      omega
    rw [Array.getElem?_push, if_neg below]
    exact h.old i low
  new i b high found := by
    rw [Array.getElem?_push] at found
    split at found
    · cases found
      exact ha
    · exact h.new i b high found

theorem modify (h : Confined base cells good) {j : Nat} (high : base.size ≤ j) {f : α → α}
    (hf : ∀ a, good a → good (f a)) : Confined base (cells.modify j f) good where
  size := by
    rw [Array.size_modify]
    exact h.size
  old i low := by
    have other : j ≠ i := by omega
    rw [Array.getElem?_modify, if_neg other]
    exact h.old i low
  new i b above found := by
    rw [Array.getElem?_modify] at found
    split at found
    · rw [Option.map_eq_some_iff] at found
      obtain ⟨a, there, rfl⟩ := found
      exact hf a (h.new i a above there)
    · exact h.new i b above found

/-- Adding a cell and changing a cell by the way leaves the others alone, and the changed array is
the older one if the change is made there too. -/
theorem push_modify {a : α} {j : Nat} {f : α → α} (ha : good a) (hf : good (f a)) :
    Confined (base.modify j f) ((base.push a).modify j f) good where
  size := by
    rw [Array.size_modify, Array.size_modify, Array.size_push]
    exact Nat.le_succ _
  old i low := by
    rw [Array.size_modify] at low
    rw [Array.getElem?_modify, Array.getElem?_modify, Array.getElem?_push, if_neg (Nat.ne_of_lt low)]
  new i b high found := by
    rw [Array.size_modify] at high
    -- the only cell that high is the one that was added
    rw [Array.getElem?_modify, Array.getElem?_push, Array.getElem?_eq_none high] at found
    split at found
    · rw [Option.map_eq_some_iff] at found
      obtain ⟨c, there, rfl⟩ := found
      split at there
      · cases there
        exact hf
      · cases there
    · split at found
      · cases found
        exact ha
      · cases found

theorem good_getD (h : Confined base cells good) {i : Nat} (high : base.size ≤ i) {d : α}
    (hd : good d) : good (cells.getD i d) := by
  rw [Array.getD_eq_getD_getElem?]
  cases found : cells[i]? with
  | none => exact hd
  | some a => exact h.new i a high found

end Confined

/-! ## What refers to new things only -/

/-- A value that does not refer to anything in an older store. -/
def Store.Beyond (base : Store) : Value → Prop
  | .list id => base.lists.size ≤ id
  | .map id => base.maps.size ≤ id
  | .function id => base.functions.size ≤ id
  | .nil | .bool _ | .num _ | .text _ | .native _ => True

/-- An entry of a map that does not refer to anything in an older store. -/
def Store.EntryBeyond (base : Store) (e : Key × Entry) : Prop :=
  base.Beyond e.2.key ∧ base.Beyond e.2.value

/-- A function that closes over a new scope and has no tests in it. -/
def Store.ClosureBeyond (base : Store) (c : Closure) : Prop :=
  base.scopes.size ≤ c.scope ∧ Stmt.AllTestFree c.body

/-- A scope that binds what is new, and whose namespaces and surroundings are new. -/
structure Store.ScopeBeyond (base : Store) (c : Scope) : Prop where
  bindings : ∀ e ∈ c.bindings.entries, base.Beyond e.2
  spaces : ∀ e ∈ c.spaces.entries, base.scopes.size ≤ e.2
  enclosing : ∀ outer, c.enclosing = some outer → base.scopes.size ≤ outer

/-- A store that has everything of an older one, and in which no new thing refers to an old one. -/
structure Store.Apart (base s : Store) : Prop where
  lists : Confined base.lists s.lists fun items => ∀ v ∈ items.toList, base.Beyond v
  maps : Confined base.maps s.maps fun content => ∀ e ∈ content.entries, base.EntryBeyond e
  functions : Confined base.functions s.functions base.ClosureBeyond
  scopes : Confined base.scopes s.scopes base.ScopeBeyond

theorem Store.Beyond.of_isConstant {base : Store} {v : Value} (h : v.isConstant = true) :
    base.Beyond v := by
  cases v with
  | list | map | function => cases h
  | _ => trivial

theorem Store.ScopeBeyond.blank (base : Store) {enclosing : Option ScopeId}
    (h : ∀ outer, enclosing = some outer → base.scopes.size ≤ outer) :
    base.ScopeBeyond ⟨.empty, .empty, enclosing⟩ :=
  ⟨fun _ he => absurd he List.not_mem_nil, fun _ he => absurd he List.not_mem_nil, h⟩

/-- Entries that are written one after another are all there is. -/
theorem OrderedMap.forall_ofList {κ ν : Type} [BEq κ] [LawfulBEq κ] {P : κ × ν → Prop}
    {pairs : List (κ × ν)} (h : ∀ e ∈ pairs, P e) : ∀ e ∈ (OrderedMap.ofList pairs).entries, P e := by
  unfold OrderedMap.ofList
  have none : ∀ e ∈ (OrderedMap.empty : OrderedMap κ ν).entries, P e :=
    fun _ he => absurd he List.not_mem_nil
  -- the entries so far are as demanded, whichever pairs they come from
  generalize (OrderedMap.empty : OrderedMap κ ν) = content at none ⊢
  induction pairs generalizing content with
  | nil => exact none
  | cons pair rest ih =>
    rw [List.forall_mem_cons] at h
    exact ih h.2 _ (OrderedMap.forall_insert none h.1)

/-- The built-in functions refer to nothing. -/
theorem Store.ScopeBeyond.root (base : Store) (natives : List Native) :
    base.ScopeBeyond ⟨Store.nativeBindings natives, .empty, none⟩ where
  bindings := by
    refine OrderedMap.forall_ofList fun e he => ?_
    obtain ⟨f, -, rfl⟩ := List.mem_map.mp he
    trivial
  spaces _ he := absurd he List.not_mem_nil
  enclosing _ h := by cases h

namespace Store.ScopeBeyond

variable {base : Store} {c : Scope}

theorem define (h : base.ScopeBeyond c) {name : String} {v : Value} (hv : base.Beyond v) :
    base.ScopeBeyond { c with bindings := c.bindings.insert name v } where
  bindings := OrderedMap.forall_insert h.bindings hv
  spaces := h.spaces
  enclosing := h.enclosing

theorem defineSpace (h : base.ScopeBeyond c) {name : String} {target : ScopeId}
    (ht : base.scopes.size ≤ target) :
    base.ScopeBeyond { c with spaces := c.spaces.insert name target } where
  bindings := h.bindings
  spaces := OrderedMap.forall_insert h.spaces ht
  enclosing := h.enclosing

end Store.ScopeBeyond

/-- A walk outward stays where every scope is such that the one around it is there too. -/
theorem Store.findOutward_within {α : Type} {s : Store} {P : ScopeId → Prop}
    (outward : ∀ id outer, P id → (s.scope id).enclosing = some outer → P outer)
    {ask : ScopeId → Scope → Option α} {a : α} {id : ScopeId} (hid : P id)
    (found : s.findOutward ask id = some a) : ∃ i, P i ∧ ask i (s.scope i) = some a := by
  fun_induction Store.findOutward s ask id with
  | case1 id b answers =>
    cases found
    exact ⟨id, hid, answers⟩
  | case2 id _ outer around _ ih => exact ih (outward id outer hid around) found
  | case3 => cases found
  | case4 => cases found

namespace Store.Apart

variable {base s : Store}

theorem scope (h : base.Apart s) {id : ScopeId} (high : base.scopes.size ≤ id) :
    base.ScopeBeyond (s.scope id) :=
  h.scopes.good_getD high (.blank base fun _ none => by cases none)

theorem findOutward (h : base.Apart s) {α : Type} {ask : ScopeId → Scope → Option α} {a : α}
    {id : ScopeId} (high : base.scopes.size ≤ id) (found : s.findOutward ask id = some a) :
    ∃ i, base.scopes.size ≤ i ∧ base.ScopeBeyond (s.scope i) ∧ ask i (s.scope i) = some a := by
  obtain ⟨i, above, answers⟩ := Store.findOutward_within (P := fun i => base.scopes.size ≤ i)
    (fun _ outer above around => (h.scope above).enclosing outer around) high found
  exact ⟨i, above, h.scope above, answers⟩

theorem push (h : base.Apart s) {id : ListId} {v : Value} (high : base.Beyond (.list id))
    (hv : base.Beyond v) : base.Apart (s.push id v) := by
  refine { h with lists := h.lists.modify high (f := (·.push v)) fun items hitems w hw => ?_ }
  rw [Array.toList_push, List.mem_append, List.mem_singleton] at hw
  rcases hw with hw | rfl
  · exact hitems w hw
  · exact hv

theorem put (h : base.Apart s) {id : MapId} {k : Key} {e : Entry} (high : base.Beyond (.map id))
    (he : base.EntryBeyond (k, e)) : base.Apart (s.put id k e) :=
  { h with maps := h.maps.modify high fun _ hcontent => OrderedMap.forall_insert hcontent he }

end Store.Apart

/-! ## The discipline -/

/-- A run that gets at nothing that was in the store before, and makes no tests. -/
def Discipline.beyond (setup : Setup) (base : Store) (tests : List TestResult) :
    Discipline setup where
  store s := base.Apart s
  host _ := True
  tests ts := ts = tests
  value v := base.Beyond v
  scope id := base.scopes.size ≤ id
  code s := s.TestFree
  constant _ h := .of_isConstant h
  items _ _ hs high := hs.lists.good_getD high fun _ hv => absurd hv List.not_mem_nil
  entries _ _ hs high := hs.maps.good_getD high fun _ he => absurd he List.not_mem_nil
  closure s id c hs high found := by
    obtain ⟨hscope, hbody⟩ := hs.functions.new id c high found
    exact ⟨hscope, (Stmt.allTestFree_iff c.body).mp hbody⟩
  bound s id name v hs high found := by
    obtain ⟨i, -, hscope, answers⟩ := hs.findOutward high found
    exact hscope.bindings (name, v) (OrderedMap.get?_eq_some.mp answers)
  owner s id name o hs high found := by
    obtain ⟨i, above, -, answers⟩ := hs.findOutward high found
    split at answers
    · cases answers
      exact above
    · cases answers
  space s id name t hs high found := by
    obtain ⟨i, -, hscope, answers⟩ := hs.findOutward high found
    exact hscope.spaces (name, t) (OrderedMap.get?_eq_some.mp answers)
  newList s xs hs hxs := ⟨{ hs with lists := hs.lists.push hxs }, hs.lists.size⟩
  newMap s content hs hcontent := ⟨{ hs with maps := hs.maps.push hcontent }, hs.maps.size⟩
  newFunction s signature body id hs high hcode :=
    ⟨{ hs with functions := hs.functions.push ⟨high, hcode⟩ }, hs.functions.size⟩
  newScope s outer hs high := by
    refine ⟨{ hs with scopes := hs.scopes.push (.blank base fun i same => ?_) }, hs.scopes.size⟩
    cases same
    exact high
  newRoot s hs := ⟨{ hs with scopes := hs.scopes.push (.root base _) }, hs.scopes.size⟩
  push _ _ _ hs high hv := hs.push high hv
  put _ _ _ _ hs high hkey hvalue := hs.put high ⟨hkey, hvalue⟩
  define _ _ _ _ hs high hv := { hs with scopes := hs.scopes.modify high fun _ hc => hc.define hv }
  defineSpace _ _ _ _ hs high ht :=
    { hs with scopes := hs.scopes.modify high fun _ hc => hc.defineSpace ht }
  block body h := (Stmt.allTestFree_iff body).mp h
  branchTrue _ _ _ h := h.1
  branchFalse _ _ _ h := h.2
  loop _ _ h := h
  test _ _ _ h := h.elim
  record _ _ _ _ _ h := h.elim
  module source _ _ :=
    (Stmt.allTestFree_iff _).mp (Program.testFree_of_ofSource (some source.name) source.source)
  sameSite _ _ _ _ := trivial
  write _ _ _ _ _ _ _ := trivial

/-! ## What an import does before its module runs -/

/-- The part of a state that an import does not change until its module was found and read. -/
def Machine.inventory (m : Machine) : Store × List TestResult × ScopeId :=
  (m.store, m.tests, m.scope)

theorem trace_inventory (setup : Setup) (text : String) :
    Keeps Machine.inventory (trace setup text) := by
  unfold trace
  split
  · exact .modify fun _ => rfl
  · exact .pure _

theorem enterDirectory_inventory (directory : Option String) :
    Keeps Machine.inventory (enterDirectory directory) := by
  cases directory with
  | none => exact .pure _
  | some dir => exact .modify fun _ => rfl

/-- A module was found and read, and the scope for its declarations is in place. -/
def Opens (setup : Setup) (path : String) (place : Place) (space : Option Lexeme) (m : Machine)
    (program : Program) (target : ScopeId) (m' : Machine) : Prop :=
  ∃ source m₁ m₂ m₃ m₄, findModule setup (pathLexeme path place) path m = .ok source m₁ ∧
    trace setup ("import: " ++ path ++ " -> " ++ source.name) m₁ = .ok () m₂ ∧
    moduleDeclarations (pathLexeme path place) path source
      { m₂ with importing := source.name :: m₂.importing } = .ok program m₃ ∧
    importTarget setup space m₃ = .ok target m₄ ∧ enterDirectory source.directory m₄ = .ok () m'

/-- Reading a module changes nothing, and drops its tests. -/
theorem moduleDeclarations_ok {path : Lexeme} {text : String} {source : ModuleSource}
    {program : Program} {m m' : Machine}
    (read : moduleDeclarations path text source m = .ok program m') :
    m' = m ∧ ∀ s ∈ program, s.TestFree := by
  unfold moduleDeclarations at read
  dsimp only at read
  split at read
  · cases read
    refine ⟨rfl, fun s hs => ?_⟩
    have free := Program.testFree_of_ofSource (some source.name) source.source
    exact (Stmt.allTestFree_iff _).mp free s (List.mem_filter.mp hs).1
  · cases read

/-- Two ways to end that agree on success, and on the store and the tests. -/
def EndsAlike {α β : Type} : EStateM.Result Failure Machine α → EStateM.Result Failure Machine β → Prop
  | .ok _ m, .ok _ m' | .error _ m, .error _ m' => m.store = m'.store ∧ m.tests = m'.tests
  | _, _ => False

theorem EndsAlike.finalState {α β : Type} {step : EvalM α} {other : EvalM β} {m m' : Machine}
    (h : EndsAlike (step m) (other m')) :
    (finalState step m).store = (finalState other m').store ∧
      (finalState step m).tests = (finalState other m').tests := by
  unfold EvalM.finalState
  cases hstep : step m <;> cases hother : other m' <;> rw [hstep, hother] at h
  case ok.ok | error.error => exact h
  all_goals exact h.elim

/-- An import fails with nothing changed, or it opens a module, and then it ends as the declarations
of the module do. -/
theorem importModule_outcome (setup : Setup) (depth : Nat) (path : String) (place : Place)
    (space : Option Lexeme) (m : Machine) :
    (∃ e m', importModule setup (depth + 1) path place space m = .error e m' ∧
      m'.inventory = m.inventory) ∨
    ∃ program target m₁, Opens setup path place space m program target m₁ ∧
      EndsAlike (importModule setup (depth + 1) path place space m)
        (sequence (execute setup depth) program { m₁ with scope := target }) := by
  rw [importModule_succ]
  cases found : findModule setup (pathLexeme path place) path m with
  | error e m' =>
    rw [bind_error found]
    exact .inl ⟨e, m', rfl, (Keeps.findModule setup _ path).of_error found⟩
  | ok source m₁ =>
    have finds : m₁.inventory = m.inventory := (Keeps.findModule setup _ path).of_ok found
    rw [bind_ok found]
    obtain ⟨m₂, traced⟩ : ∃ m₂, trace setup ("import: " ++ path ++ " -> " ++ source.name) m₁ = .ok () m₂ := by
      unfold trace
      split <;> exact ⟨_, rfl⟩
    have traces : m₂.inventory = m₁.inventory := (trace_inventory setup _).of_ok traced
    rw [bind_ok traced]
    unfold inImport restoring
    dsimp only
    cases read : moduleDeclarations (pathLexeme path place) path source
        { m₂ with importing := source.name :: m₂.importing } with
    | error e m₃ =>
      have kept : Keeps Machine.inventory (moduleDeclarations (pathLexeme path place) path source) :=
        .moduleDeclarations _ _ _
      have reads := kept.of_error read
      rw [bind_error read]
      exact .inl ⟨e, _, rfl, reads.trans (traces.trans finds)⟩
    | ok program m₃ =>
      rw [bind_ok read]
      obtain ⟨target, m₄, made⟩ : ∃ target m₄, importTarget setup space m₃ = .ok target m₄ := by
        cases space <;> exact ⟨_, _, rfl⟩
      obtain ⟨m₅, entered⟩ : ∃ m₅, enterDirectory source.directory m₄ = .ok () m₅ := by
        cases source.directory <;> exact ⟨_, rfl⟩
      rw [bind_ok made, bind_ok entered]
      refine .inr ⟨program, target, m₅, ⟨source, m₁, m₂, m₃, m₄, found, traced, read, made, entered⟩, ?_⟩
      -- what is put back after the module is neither the store nor the tests
      cases run : sequence (execute setup depth) program { m₅ with scope := target } with
      | ok signal m₆ =>
        rw [bind_ok (inScope_ok run)]
        exact ⟨rfl, rfl⟩
      | error e m₆ =>
        rw [bind_error (inScope_error run)]
        exact ⟨rfl, rfl⟩

theorem Store.size_defineSpace (s : Store) (id : ScopeId) (name : String) (target : ScopeId) :
    (s.defineSpace id name target).scopes.size = s.scopes.size :=
  Array.size_modify

/-- A new scope is apart from the store it is added to, even though an old scope now has it as a
namespace. -/
theorem Store.apart_newRoot (s : Store) (natives : List Native) (here : ScopeId) (name : String) :
    (s.defineSpace here name s.scopes.size).Apart
      ((s.newRoot natives).2.defineSpace here name s.scopes.size) where
  lists := .start _ _
  maps := .start _ _
  functions := .start _ _
  scopes := by
    have root := Store.ScopeBeyond.root (s.defineSpace here name s.scopes.size) natives
    have high := Nat.le_of_eq (Store.size_defineSpace s here name s.scopes.size)
    exact .push_modify (f := fun c => { c with spaces := c.spaces.insert name s.scopes.size }) root
      (root.defineSpace high)

theorem importTarget_named {setup : Setup} {name : Lexeme} {target : ScopeId} {m m' : Machine}
    (made : importTarget setup (some name) m = .ok target m') :
    target = m.store.scopes.size ∧ m'.inventory =
      ((m.store.newRoot setup.natives).2.defineSpace m.scope name.text target, m.tests, m.scope) := by
  cases made
  exact ⟨rfl, rfl⟩

/-- With a name to import under, a module is opened in a scope that is new, and the current scope
has it as the namespace of that name. -/
theorem Opens.beyond {setup : Setup} {path : String} {place : Place} {name : Lexeme}
    {m m' : Machine} {program : Program} {target : ScopeId}
    (opened : Opens setup path place (some name) m program target m') :
    target = m.store.scopes.size ∧ (∀ s ∈ program, s.TestFree) ∧
      (Discipline.beyond setup (m.store.defineSpace m.scope name.text target) m.tests).Holds
        { m' with scope := target } := by
  obtain ⟨source, m₁, m₂, m₃, m₄, found, traced, read, made, entered⟩ := opened
  obtain ⟨-, -, rfl⟩ := findModule_ok found
  have traces := (trace_inventory setup _).of_ok traced
  obtain ⟨rfl, free⟩ := moduleDeclarations_ok read
  obtain ⟨rfl, makes⟩ := importTarget_named made
  have enters := ((enterDirectory_inventory _).of_ok entered).trans makes
  simp only [Machine.inventory, Prod.mk.injEq] at traces enters
  rw [traces.1, traces.2.1, traces.2.2] at enters
  obtain ⟨stored, tested, -⟩ := enters
  dsimp only
  rw [traces.1]
  refine ⟨rfl, free, ?_, trivial, tested, Nat.le_of_eq (Store.size_defineSpace _ _ _ _)⟩
  show Store.Apart _ m'.store
  rw [stored]
  exact Store.apart_newRoot _ _ _ _

/-! ## What an import leaves alone -/

/-- A later store has everything of an older one as it was, but for one namespace of one scope,
which may be a new one. -/
structure Store.Intact (s : Store) (here : ScopeId) (name : String) (s' : Store) : Prop where
  lists : ∀ id, id < s.lists.size → s'.lists[id]? = s.lists[id]?
  maps : ∀ id, id < s.maps.size → s'.maps[id]? = s.maps[id]?
  functions : ∀ id, id < s.functions.size → s'.functions[id]? = s.functions[id]?
  scopes : ∀ id, id < s.scopes.size → id ≠ here → s'.scopes[id]? = s.scopes[id]?
  current : ∀ c, s.scopes[here]? = some c → s'.scopes[here]? = some c ∨
    ∃ target, s.scopes.size ≤ target ∧
      s'.scopes[here]? = some { c with spaces := c.spaces.insert name target }

theorem Store.Intact.refl (s : Store) (here : ScopeId) (name : String) : s.Intact here name s :=
  ⟨fun _ _ => rfl, fun _ _ => rfl, fun _ _ => rfl, fun _ _ _ => rfl, fun _ found => .inl found⟩

/-- What stays apart from a store with a new namespace leaves the store intact. -/
theorem Store.Apart.intact {s s' : Store} {here target : ScopeId} {name : String}
    (high : s.scopes.size ≤ target) (h : (s.defineSpace here name target).Apart s') :
    s.Intact here name s' where
  lists := h.lists.old
  maps := h.maps.old
  functions := h.functions.old
  scopes id low other := by
    have kept := h.scopes.old id
    unfold Store.defineSpace at kept
    rw [Array.size_modify, Array.getElem?_modify, if_neg other.symm] at kept
    exact kept low
  current c found := by
    -- this is the scope in which the namespace was put
    have low : here < s.scopes.size := (Array.getElem?_eq_some_iff.mp found).1
    have kept := h.scopes.old here
    unfold Store.defineSpace at kept
    rw [Array.size_modify, Array.getElem?_modify, if_pos rfl, found] at kept
    exact .inr ⟨target, high, kept low⟩

/-- A declaration of a module comes to be executed in the course of an evaluation. -/
def Config.RunsModule (setup : Setup) (c : Config) : Prop :=
  ∃ links i c', Trail setup c (links ++ [.load i]) c'

/-- What an evaluation asks for happens in its course. -/
theorem Asks.runsModule {setup : Setup} {c c' : Config} {link : Link} (asks : Asks setup c link c')
    (runs : c'.RunsModule setup) : c.RunsModule setup := by
  obtain ⟨links, i, c₁, trail⟩ := runs
  exact ⟨link :: links, i, c₁, .step asks trail⟩

/-- The first declaration of a module that was opened comes to be executed. -/
theorem Opens.runsModule {setup : Setup} {depth : Nat} {path : String} {place : Place}
    {space : Option Lexeme} {m m' : Machine} {program : Program} {target : ScopeId}
    (opened : Opens setup path place space m program target m') (some : program ≠ []) :
    Config.RunsModule setup ⟨depth + 1, .load path place space, m⟩ := by
  obtain ⟨source, m₁, m₂, m₃, m₄, found, traced, read, made, entered⟩ := opened
  cases program with
  | nil => exact absurd rfl some
  | cons s rest =>
    exact ⟨[], _, _, .step (.declaration found traced read made entered .first) .here⟩

/-- Only a module that was opened has a declaration that comes to be executed. -/
theorem Config.RunsModule.opens {setup : Setup} {depth : Nat} {path : String} {place : Place}
    {space : Option Lexeme} {m : Machine}
    (runs : Config.RunsModule setup ⟨depth, .execute (.load path place space), m⟩) :
    ∃ program target m', Opens setup path place space m program target m' := by
  obtain ⟨links, i, c, trail⟩ := runs
  generalize all : links ++ [Link.load i] = reached at trail
  cases trail with
  | here => exact absurd all (by simp)
  | step asks further =>
    cases asks with
    | value starts => cases starts
    | load =>
      cases further with
      | here => cases links <;> simp at all
      | step asks _ =>
        cases asks with
        | declaration found traced read made entered _ =>
          exact ⟨_, _, _, _, _, _, _, _, found, traced, read, made, entered⟩

section Import

variable (setup : Setup) (depth : Nat) (path : String) (place : Place) (name : Lexeme) (m : Machine)

theorem importModule_isolated :
    (finalState (importModule setup depth path place (some name)) m).tests = m.tests ∧
    m.store.Intact m.scope name.text
      (finalState (importModule setup depth path place (some name)) m).store := by
  cases depth with
  | zero => exact ⟨rfl, .refl _ _ _⟩
  | succ depth =>
    rcases importModule_outcome setup depth path place (some name) m with
      ⟨e, m', failed, same⟩ | ⟨program, target, m₁, opened, alike⟩
    · simp only [Machine.inventory, Prod.mk.injEq] at same
      unfold finalState
      rw [failed]
      exact ⟨same.2.1, same.1 ▸ .refl _ _ _⟩
    · -- the declarations run beyond everything that there was when the module was opened
      obtain ⟨rfl, free, holds⟩ := opened.beyond
      have run := Discipline.ensures_sequence
        (.beyond setup (m.store.defineSpace m.scope name.text m.store.scopes.size) m.tests)
        fun s hs => (Discipline.rules _ depth).execute s (free s hs)
      obtain ⟨apart, -, tested, -⟩ := run.finalState holds
      obtain ⟨stores, tests⟩ := alike.finalState
      rw [stores, tests]
      exact ⟨tested, Store.Apart.intact (Nat.le_refl _) apart⟩

theorem importModule_unopened {e : Failure} {m' : Machine}
    (failed : importModule setup depth path place (some name) m = .error e m')
    (never : ¬ Config.RunsModule setup ⟨depth, .load path place (some name), m⟩) :
    m'.store = m.store := by
  cases depth with
  | zero =>
    cases failed
    rfl
  | succ depth =>
    rcases importModule_outcome setup depth path place (some name) m with
      ⟨_, _, run, same⟩ | ⟨program, target, m₁, opened, alike⟩
    · cases run.symm.trans failed
      exact congrArg Prod.fst same
    · -- a module without declarations does not fail
      cases program with
      | nil =>
        rw [failed] at alike
        exact alike.elim
      | cons s rest => exact absurd (opened.runsModule (List.cons_ne_nil s rest)) never

/-- An import under a name leaves alone what was there, whatever the module does and however it ends:
no test is noted, no list, map or function of the store changes, and of the scopes only the current
one, which gets a namespace. If it fails before a declaration of the module is executed, the store
does not change at all. -/
theorem named_import_isolated :
    (finalState (execute setup depth (.load path place (some name))) m).tests = m.tests ∧
    m.store.Intact m.scope name.text
      (finalState (execute setup depth (.load path place (some name))) m).store ∧
    ∀ e m', execute setup depth (.load path place (some name)) m = .error e m' →
      ¬ Config.RunsModule setup ⟨depth, .execute (.load path place (some name)), m⟩ →
      m'.store = m.store := by
  cases depth with
  | zero =>
    refine ⟨rfl, .refl _ _ _, fun e m' failed _ => ?_⟩
    cases failed
    rfl
  | succ depth =>
    -- what the import has done stays done, whether it has failed or not
    obtain ⟨tests, intact⟩ := importModule_isolated setup depth path place name m
    rw [execute, finalState_bind]
    unfold finalState at tests intact
    cases run : importModule setup depth path place (some name) m with
    | ok _ m₁ =>
      rw [run] at tests intact
      refine ⟨tests, intact, fun e m' failed _ => ?_⟩
      cases (bind_ok run).symm.trans failed
    | error _ m₁ =>
      rw [run] at tests intact
      refine ⟨tests, intact, fun e m' failed never => ?_⟩
      cases (bind_error run).symm.trans failed
      exact importModule_unopened setup depth path place name m run
        fun runs => never (Asks.load.runsModule runs)

end Import

/-- A new run, as if it were inside an import of a bundled module. -/
def Machine.inImport : Machine :=
  { Session.start (Session.standard {}) Host.bare with importing := ["larder/io"] }

/-- Importing that module again, under a name and another spelling, fails before the module is
opened, and the store does not change. -/
theorem named_import_isolated_again :
    ∃ e m', execute (Session.standard {}) 2 (.load "larder/io.tah" ⟨none, 1⟩ (some ⟨"io", ⟨none, 1⟩⟩))
        Machine.inImport = .error e m' ∧ m'.store = Machine.inImport.store := by
  have failed : execute (Session.standard {}) 2
      (.load "larder/io.tah" ⟨none, 1⟩ (some ⟨"io", ⟨none, 1⟩⟩)) Machine.inImport
      = .error (.at (pathLexeme "larder/io.tah" ⟨none, 1⟩) (.circularImport "larder/io.tah"))
          Machine.inImport := rfl
  have unopened : ¬ Config.RunsModule (Session.standard {})
      ⟨2, .execute (.load "larder/io.tah" ⟨none, 1⟩ (some ⟨"io", ⟨none, 1⟩⟩)), Machine.inImport⟩ := by
    intro runs
    obtain ⟨program, target, m', source, m₁, m₂, m₃, m₄, found, -⟩ := runs.opens
    cases found
  obtain ⟨-, -, unchanged⟩ := named_import_isolated (Session.standard {}) 2 "larder/io.tah" ⟨none, 1⟩
    ⟨"io", ⟨none, 1⟩⟩ Machine.inImport
  exact ⟨_, _, failed, unchanged _ _ failed unopened⟩

end ContractScript
