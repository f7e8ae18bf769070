/-
Modules that come with the language.

The source of such a module is part of the program, and no setting changes where it is found. The
modules that are considered here declare functions and nothing else. An import under a name leaves a
scope of its own, with the built-in functions and the functions of the module in it. The code of these
functions assigns to one name, a loop variable, which is not bound in that scope, and imports nothing:
the import seals its scope, and the functions are still there however far the program has come.
-/
import ContractScript.Proofs.Program.Sameness
import ContractScript.Proofs.Run.Independence
import ContractScript.Proofs.Run.Persistence
import ContractScript.Proofs.Run.Stepping

set_option autoImplicit false

namespace ContractScript

open EvalM

/-! ## Reading lines -/

theorem Larder.toList_ofLines (lines : List String) :
    (ofLines lines).toList = lines.flatMap fun line => line.toList ++ ['\n'] := by
  unfold ofLines
  rw [String.toList_join]
  induction lines with
  | nil => rfl
  | cons line rest ih =>
    simp only [List.map_cons, List.flatMap_cons, String.toList_append, ← ih]
    rfl

/-- What a program is read as from its characters. -/
def Program.ofCharacters (keepTests : Bool) (file : Option String) (cs : List Char) :
    Program × List Diagnostic :=
  let (segments, last) := Segment.scanAll 1 cs
  let read := Program.parse keepTests ⟨segments.filterMap (Segment.token? file), ⟨file, last⟩⟩
  (read.1, segments.filterMap (Segment.diagnostic? file) ++ read.2)

theorem Program.ofSource_ofLines (keepTests : Bool) (file : Option String) (lines : List String) :
    Program.ofSource keepTests file (Larder.ofLines lines)
      = Program.ofCharacters keepTests file (lines.flatMap fun line => line.toList ++ ['\n']) := by
  rw [← Larder.toList_ofLines]
  rfl

/-! ## Declarations of functions -/

namespace Store

/-- Functions are declared in a scope, one after another. -/
def declare (s : Store) (scope : ScopeId) : List (Signature × List Stmt) → Store
  | [] => s
  | (signature, body) :: rest =>
    declare ((s.newFunction ⟨signature, body, scope⟩).2.define scope signature.name.text
      (.function s.functions.size)) scope rest

section Declare

variable {s : Store} {scope : ScopeId} {fs : List (Signature × List Stmt)}

theorem functions_declare (s : Store) (fs : List (Signature × List Stmt)) :
    (s.declare scope fs).functions.toList
      = s.functions.toList ++ fs.map fun f => ⟨f.1, f.2, scope⟩ := by
  induction fs generalizing s with
  | nil => exact (List.append_nil _).symm
  | cons f rest ih =>
    rw [declare, ih, List.map_cons]
    show (s.functions.push _).toList ++ _ = _
    rw [Array.toList_push, List.append_assoc]
    rfl

theorem size_declare (s : Store) (fs : List (Signature × List Stmt)) :
    (s.declare scope fs).scopes.size = s.scopes.size := by
  induction fs generalizing s with
  | nil => rfl
  | cons f rest ih =>
    rw [declare, ih]
    exact Array.size_modify

theorem enclosing_declare (s : Store) (fs : List (Signature × List Stmt)) (id : ScopeId) :
    ((s.declare scope fs).scope id).enclosing = (s.scope id).enclosing := by
  induction fs generalizing s with
  | nil => rfl
  | cons f rest ih =>
    rw [declare, ih]
    exact (scope_of_outline (outline_define _ _ _ _) id).2

/-- A name that no function has means what it meant. -/
theorem get?_declare_of_notMem (inside : scope < s.scopes.size) {name : String}
    (missing : name ∉ fs.map fun f => f.1.name.text) :
    ((s.declare scope fs).scope scope).bindings.get? name = (s.scope scope).bindings.get? name := by
  induction fs generalizing s with
  | nil => rfl
  | cons f rest ih =>
    rw [List.map_cons, List.mem_cons, not_or] at missing
    have inside' : scope < (s.newFunction ⟨f.1, f.2, scope⟩).2.scopes.size := inside
    rw [declare, ih (Nat.lt_of_lt_of_eq inside' Array.size_modify.symm) missing.2]
    exact get?_define missing.1 inside'

/-- The names of functions that are all different mean these functions. -/
theorem get?_declare (inside : scope < s.scopes.size)
    (distinct : (fs.map fun f => f.1.name.text).Nodup) :
    ∀ f ∈ fs, ∃ id, ((s.declare scope fs).scope scope).bindings.get? f.1.name.text
        = some (.function id) ∧ (s.declare scope fs).closure? id = some ⟨f.1, f.2, scope⟩ := by
  induction fs generalizing s with
  | nil => exact fun _ member => absurd member List.not_mem_nil
  | cons f rest ih =>
    rw [List.map_cons, List.nodup_cons] at distinct
    have inside' : scope < (s.newFunction ⟨f.1, f.2, scope⟩).2.scopes.size := inside
    have inside'' : scope < ((s.newFunction ⟨f.1, f.2, scope⟩).2.define scope f.1.name.text
        (.function s.functions.size)).scopes.size := Nat.lt_of_lt_of_eq inside' Array.size_modify.symm
    rw [declare]
    refine List.forall_mem_cons.mpr ⟨⟨s.functions.size, ?_, ?_⟩, ih inside'' distinct.2⟩
    · rw [get?_declare_of_notMem inside'' distinct.1, scope_define inside', OrderedMap.get?_insert,
        if_pos (beq_self_eq_true _)]
    · unfold closure?
      rw [← Array.getElem?_toList, functions_declare]
      show ((s.functions.push _).toList ++ _)[s.functions.size]? = _
      rw [Array.toList_push, List.append_assoc]
      simp

/-- A function that is there afterwards was there before, or has been declared. -/
theorem closure?_declare {id : FunctionId} {c : Closure}
    (found : (s.declare scope fs).closure? id = some c) :
    s.closure? id = some c ∨ ∃ f ∈ fs, c = ⟨f.1, f.2, scope⟩ := by
  unfold closure? at found ⊢
  rw [← Array.getElem?_toList, functions_declare, List.getElem?_append] at found
  split at found
  · rw [Array.getElem?_toList] at found
    exact .inl found
  · obtain ⟨f, member, same⟩ := List.mem_map.mp (List.mem_of_getElem? found)
    exact .inr ⟨f, member, same.symm⟩

end Declare

end Store

/-- Declarations of functions succeed. -/
theorem sequence_functions (setup : Setup) (depth : Nat) (fs : List (Signature × List Stmt)) :
    ∀ m : Machine, sequence (execute setup (depth + 1)) (fs.map fun f => .function f.1 f.2) m
      = .ok .next { m with store := m.store.declare m.scope fs } := by
  induction fs with
  | nil => exact fun _ => rfl
  | cons f rest ih => exact fun m => (bind_ok rfl).trans (ih _)

/-! ## Bundled modules -/

/-- A module that comes with the language, with the functions that it is read as. -/
structure Bundle where
  path : String
  text : String
  functions : List (Signature × List Stmt)
  /-- Wherever modules are looked for, the path means this one. -/
  found : ∀ (settings : Settings) (site : Module.Site) (base : Option String),
    (Import.mk site base path).source? (Session.standard settings) = some ⟨text, path, none⟩
  read : ModuleSource.read ⟨text, path, none⟩ = (functions.map fun f => .function f.1 f.2, [])
  nonempty : functions ≠ []
  distinct : (functions.map fun f => f.1.name.text).Nodup
  /-- Nothing in the scope of the module has the name of the loop variable. -/
  uncounted : "i" ∉ functions.map fun f => f.1.name.text
  /-- The code assigns to its loop variable and to nothing else. -/
  spare : ∀ kept : String → Bool, kept "i" = false →
    ∀ f ∈ functions, f.1.spares kept && Stmt.allSpare kept f.2

/-- A bundled module is found by its name in the table of all of them. -/
theorem source?_of_claims {path text : String} (stem : String) (settings : Settings) (site : Module.Site)
    (base : Option String)
    (claimed : Module.standard.find? (Module.Loader.claims path) = some .larder)
    (name : (Module.dropStart? Module.larderRoot path).map (Module.dropEnd Module.suffix) = some stem)
    (plain : (stem.isEmpty || stem.toList.contains '/' || stem.toList.head? == some '.') = false)
    (proper : FileTree.hasNull stem = false)
    (short : ¬FileTree.maxStep < (stem ++ Module.suffix).utf8ByteSize)
    (there : Larder.source? stem = some text) (whole : Module.larderRoot ++ stem = path) :
    (Import.mk site base path).source? (Session.standard settings) = some ⟨text, path, none⟩ := by
  rw [Import.source?_eq_some]
  unfold Module.load
  dsimp only
  rw [show (Session.standard settings).loaders.find? _ = _ from claimed]
  show Module.fromLarder path = _
  unfold Module.fromLarder
  rw [name]
  dsimp only
  rw [plain, proper, there, if_neg Bool.false_ne_true, if_neg Bool.false_ne_true, if_neg short, ← whole]
  rfl

/-- The call of a function through the name of an import. -/
def callImported (setup : Setup) (depth : Nat) (place : Place) (space : Lexeme) (text : String)
    (arguments : List Value) : EvalM Value := do
  callValue setup depth place (← lookupQualified [space] ⟨text, place⟩) arguments

namespace Bundle

variable (b : Bundle)

/-- The module as a loader finds it. -/
def source : ModuleSource := ⟨b.text, b.path, none⟩

/-- A scope has the functions of the module in it, and around them the built-in functions. -/
structure Loaded (s : Store) (scope : ScopeId) : Prop where
  rooted : s.Rooted scope
  natives : ∀ text, text ∉ b.functions.map (fun f => f.1.name.text) →
    (s.scope scope).bindings.get? text = (Store.nativeBindings Native.all).get? text
  functions : ∀ f ∈ b.functions, ∃ id,
    (s.scope scope).bindings.get? f.1.name.text = some (.function id) ∧
      s.closure? id = some ⟨f.1, f.2, scope⟩

/-- The state in which the import under a name ends. -/
def imported (setup : Setup) (space : String) (m : Machine) : Machine :=
  let i : NamedImport := ⟨setup, b.path, space, b.source⟩
  { m with
    store := (i.opened m).store.declare m.store.scopes.size b.functions
    events := i.events ++ m.events }

/-- A name stands for the module in a state: an import of the module under a name has succeeded in the
past, and the name leads to the scope that this import has made. -/
inductive Imported (settings : Settings) (past : List Config) (space : Lexeme) (m : Machine) : Prop
  | intro {depth : Nat} {place : Place} {target : Lexeme} {before after : Machine}
      (member : ⟨depth, .execute (.load b.path place (some target)), before⟩ ∈ past)
      (ran : execute (Session.standard settings) depth (.load b.path place (some target)) before
        = .ok .next after)
      (means : m.store.space? m.scope space.text = some before.store.scopes.size)

variable {b}

section Load

variable {settings : Settings} {m m₁ : Machine}

theorem findModule_source (lexeme : Lexeme) (idle : b.path ∉ m.importing) :
    findModule (Session.standard settings) lexeme b.path m = .ok b.source m :=
  (findModule_eq lexeme (b.found settings m.host.site m.directory)).trans (if_neg idle)

theorem findModule_circular (lexeme : Lexeme) (noted : b.path ∈ m.importing) :
    findModule (Session.standard settings) lexeme b.path m
      = .error (.at lexeme (.circularImport b.path)) m :=
  (findModule_eq lexeme (b.found settings m.host.site m.directory)).trans (if_pos noted)

theorem quiet : b.source.read.2.isEmpty = true := by
  rw [show b.source.read = _ from b.read]
  rfl

theorem declarations : b.source.declarations = b.functions.map fun f => .function f.1 f.2 := by
  unfold ModuleSource.declarations
  rw [show b.source.read = _ from b.read]
  refine List.filter_eq_self.mpr fun s member => ?_
  obtain ⟨f, -, rfl⟩ := List.mem_map.mp member
  rfl

/-- The import succeeds unless the module is being imported already, or the levels are used up. -/
theorem execute_load (depth : Nat) (place : Place) (space : Lexeme) (idle : b.path ∉ m.importing) :
    execute (Session.standard settings) (depth + 3) (.load b.path place (some space)) m
      = .ok .next (b.imported (Session.standard settings) space.text m) := by
  have found : findModule (Session.standard settings) (pathLexeme b.path place) b.path m = .ok b.source m :=
    findModule_source _ idle
  rw [execute_load_opened found (depth + 1) quiet]
  unfold NamedImport.declare
  dsimp only
  rw [declarations, sequence_functions]
  rfl

/-- When the import has succeeded, it has been executed in full. -/
theorem of_execute_load {depth : Nat} {place : Place} {space : Lexeme} {signal : Signal}
    (ran : execute (Session.standard settings) depth (.load b.path place (some space)) m
      = .ok signal m₁) : m₁ = b.imported (Session.standard settings) space.text m := by
  match depth with
  | 0 | 1 =>
    rw [execute_load_shallow _ (by decide)] at ran
    cases ran
  | depth + 2 =>
    by_cases noted : b.path ∈ m.importing
    · rw [execute_load_unfound depth (findModule_circular _ noted)] at ran
      cases ran
    · cases depth with
      | zero =>
        -- the first declaration would need one level more
        obtain ⟨f, rest, functions⟩ := List.exists_cons_of_ne_nil b.nonempty
        rw [execute_load_opened (findModule_source _ noted) 0 quiet] at ran
        unfold NamedImport.declare at ran
        dsimp only at ran
        rw [declarations, functions] at ran
        cases ran
      | succ depth =>
        rw [execute_load _ _ _ noted] at ran
        cases ran
        rfl

end Load

section Imported

variable (settings : Settings) (space : String) (m : Machine)

/-- What a name means in the new scope before the declarations of the module. -/
theorem get?_imported {text : String} (missing : text ∉ b.functions.map fun f => f.1.name.text) :
    ((b.imported (Session.standard settings) space m).store.scope m.store.scopes.size).bindings.get? text
      = (Store.nativeBindings Native.all).get? text := by
  have inside : m.store.scopes.size
      < (NamedImport.opened ⟨Session.standard settings, b.path, space, b.source⟩ m).store.scopes.size := by
    refine Nat.lt_of_lt_of_eq (Nat.lt_succ_self _) (Eq.symm ?_)
    exact Array.size_modify.trans (Array.size_push _)
  refine (Store.get?_declare_of_notMem inside missing).trans ?_
  refine congrArg (fun b : OrderedMap String Value => b.get? text) ?_
  exact (Store.bindings_defineSpace _ _ _ _ _).trans (congrArg Scope.bindings (Store.scope_push_size _))

theorem loaded_imported :
    b.Loaded (b.imported (Session.standard settings) space m).store m.store.scopes.size := by
  have size : (NamedImport.opened ⟨Session.standard settings, b.path, space, b.source⟩ m).store.scopes.size
      = m.store.scopes.size + 1 := Array.size_modify.trans (Array.size_push _)
  have inside := Nat.lt_of_lt_of_eq (Nat.lt_succ_self m.store.scopes.size) size.symm
  refine ⟨⟨Nat.lt_of_lt_of_eq inside (Store.size_declare _ _).symm, ?_⟩, ?_, ?_⟩
  · refine (Store.enclosing_declare _ _ _).trans ((Store.scope_defineSpace _ _ _ _ _).1.trans ?_)
    exact congrArg Scope.enclosing (Store.scope_push_size _)
  · exact fun text missing => get?_imported settings space m missing
  · exact Store.get?_declare inside b.distinct

end Imported

/-- What is loaded stays so as long as its seal holds. -/
theorem Loaded.of_holds {σ : Seal} {s : Store} (loaded : b.Loaded σ.base σ.scope) (holds : σ.Holds s) :
    b.Loaded s σ.scope where
  rooted := loaded.rooted.grown holds.grown
  natives := by
    rw [holds.bindings]
    exact loaded.natives
  functions f member := by
    obtain ⟨id, bound, found⟩ := loaded.functions f member
    rw [holds.bindings]
    exact ⟨id, bound, holds.grown.closure id _ found⟩

/-- The import of the module seals its scope. -/
theorem setBy {settings : Settings} {depth : Nat} {place : Place} {space : Lexeme} {m m₁ : Machine}
    {signal : Signal} (placed : m.Placed)
    (ran : execute (Session.standard settings) depth (.load b.path place (some space)) m
      = .ok signal m₁) :
    Seal.SetBy ⟨m₁.store, m.store.scopes.size⟩ (Session.standard settings)
      ⟨depth, .execute (.load b.path place (some space)), m⟩ := by
  have ends : Config.finalState (Session.standard settings)
      ⟨depth, .execute (.load b.path place (some space)), m⟩ = m₁ := by
    show finalState (execute _ _ _) m = m₁
    unfold finalState
    rw [ran]
  have same := of_execute_load ran
  have loaded : b.Loaded m₁.store m.store.scopes.size := by
    rw [same]
    exact loaded_imported settings space.text m
  have nested : m₁.store.Nested := by
    have placed' := (settled (Session.standard settings) depth
      (.execute (.load b.path place (some space))) m placed).placed
    rw [ends] at placed'
    exact placed'.nested
  refine ⟨Nat.le_refl _, ?_, ?_⟩
  · rw [ends]
    exact loaded.rooted
  rw [ends]
  refine ⟨.refl _, rfl, fun id c found within => ?_⟩
  have least : m.store.scopes.size ≤ c.scope := within.le nested
  rw [same] at found
  -- the functions in the sealed scope are those of the module, as it is newer than all others
  rcases Store.closure?_declare found with found | ⟨f, member, rfl⟩
  · exact absurd (placed.nested.closure id c found) (Nat.not_lt_of_le least)
  · refine b.spare _ ?_ f member
    unfold Seal.kept OrderedMap.contains
    rw [same, get?_imported settings space.text m b.uncounted]
    rfl

/-- A function of the module is called through the name of the import. -/
theorem Loaded.callImported_eq {m : Machine} {space : Lexeme} {scope : ScopeId} (setup : Setup)
    (loaded : b.Loaded m.store scope) (means : m.store.space? m.scope space.text = some scope)
    {f : Signature × List Stmt} (member : f ∈ b.functions) :
    ∃ id, m.store.closure? id = some ⟨f.1, f.2, scope⟩ ∧ ∀ depth place arguments,
      callImported setup depth place space f.1.name.text arguments m
        = callValue setup depth place (.function id) arguments m := by
  obtain ⟨id, bound, declared⟩ := loaded.functions f member
  refine ⟨id, declared, fun depth place arguments => bind_ok ?_⟩
  have found : m.store.qualifiedValue m.scope [space] ⟨f.1.name.text, place⟩ = .ok (.function id) := by
    unfold Store.qualifiedValue Store.spaceOf
    rw [means]
    dsimp only [Store.spaceOf]
    rw [Store.value?_here bound]
  unfold lookupQualified
  rw [get_bind, found]
  rfl

/-- Where a name stands for the module, it leads to what the import has loaded. -/
theorem Imported.loaded {settings : Settings} {host : Host} {scripts : List (String × Option String)}
    {source : String} {name : Option String} {ended : List Config} {c : Config} {space : Lexeme}
    (imported : b.Imported settings
      ((Session.new (Session.standard settings) host).chronicle scripts ++ ended) space c.machine)
    (reaches : ((Session.new (Session.standard settings) host).after scripts).Reaches source name ended c) :
    ∃ scope, c.machine.store.space? c.machine.scope space.text = some scope ∧
      b.Loaded c.machine.store scope := by
  obtain ⟨member, ran, means⟩ := imported
  have set := setBy (reaches.past_whole member).1 ran
  have stands := set.session reaches member
  refine ⟨_, means, Loaded.of_holds ?_ stands.holds⟩
  rw [of_execute_load ran]
  exact loaded_imported settings _ _

end Bundle

end ContractScript
