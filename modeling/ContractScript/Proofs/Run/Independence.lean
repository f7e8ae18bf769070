/-
An import under a name does not depend on who imports.

Two runs import the same module under the same name. The two have the same surroundings:
files, input, clock, network, the directory that imports are seen from and the modules being
imported. Otherwise they have nothing in common: other globals, other scopes, other lists and
maps, other calls in progress. Up to the point where the module is opened an import looks at
the surroundings alone. From there both runs are compared, with nothing matched but the two
new scopes, which hold the built-in functions. What the declarations do on one side they then
do on the other, since all that they can get at is what they have made.

The comparison asks that the calls in progress and the tests noted are the same on both sides,
so it is made of the two runs as they would be without any, and each is then put before its
own backdrop. If the runs have not the same number of levels left, both are compared at the
smaller number.
-/
import ContractScript.Proofs.Run.Backdrop
import ContractScript.Proofs.Run.Circularity
import ContractScript.Proofs.Run.Grounding
import ContractScript.Proofs.Run.Isolation

set_option autoImplicit false

namespace ContractScript

open EvalM

/-! ## What an import looks at before its module runs -/

/-- Two runs stand at the same place: their modules are found in the same way, and the same ones are
being imported. -/
structure Machine.StandsWith (m m' : Machine) : Prop where
  site : m.host.site = m'.host.site
  directory : m.directory = m'.directory
  importing : ∀ name, name ∈ m.importing ↔ name ∈ m'.importing

/-- The lines of the trace that a text makes. -/
def traceEvents (setup : Setup) (text : String) : List Event :=
  if setup.settings.debug then [.trace text] else []

theorem trace_eq (setup : Setup) (text : String) (m : Machine) :
    trace setup text m = .ok () { m with events := traceEvents setup text ++ m.events } := by
  unfold trace traceEvents
  split <;> rfl

theorem enterDirectory_eq (directory : Option String) (m : Machine) :
    enterDirectory directory m = .ok () { m with directory := directory <|> m.directory } := by
  cases directory <;> rfl

/-- Whether a module is found depends on where a run stands alone, and so does which one. -/
theorem findModule_standsWith (setup : Setup) (lexeme : Lexeme) (path : String) {m m' : Machine}
    (stands : m.StandsWith m') :
    (∃ e, findModule setup lexeme path m = .error e m ∧ findModule setup lexeme path m' = .error e m') ∨
    ∃ source, findModule setup lexeme path m = .ok source m ∧
      findModule setup lexeme path m' = .ok source m' := by
  have noted (name : String) : m'.importing.contains name = m.importing.contains name := by
    rw [Bool.eq_iff_iff, List.contains_iff_mem, List.contains_iff_mem, stands.importing]
  unfold findModule
  rw [get_bind, get_bind, ← stands.site, ← stands.directory]
  simp only [noted]
  generalize Module.load setup.loaders m.host.site m.directory path = answer
  cases answer with
  | error refusal => cases refusal <;> exact .inl ⟨_, rfl, rfl⟩
  | ok found =>
    cases found with
    | none => exact .inl ⟨_, rfl, rfl⟩
    | some source =>
      by_cases noted : m.importing.contains source.name = true
      · simp only [noted, if_true]
        exact .inl ⟨_, rfl, rfl⟩
      · simp only [noted]
        exact .inr ⟨source, rfl, rfl⟩

/-- A module as it is read. -/
def ModuleSource.read (source : ModuleSource) : Program × List Diagnostic :=
  Program.ofSource false (some source.name) source.source

/-- The declarations of a module. -/
def ModuleSource.declarations (source : ModuleSource) : Program :=
  source.read.1.filter Stmt.isDeclaration

theorem moduleDeclarations_eq (lexeme : Lexeme) (path : String) (source : ModuleSource) :
    moduleDeclarations lexeme path source
      = if source.read.2.isEmpty then pure source.declarations
        else failAt lexeme (.moduleErrors path source.read.2) :=
  rfl

theorem ModuleSource.testFree_declarations (source : ModuleSource) :
    Stmt.AllTestFree source.declarations := by
  rw [Stmt.allTestFree_iff]
  intro s member
  have free := Program.testFree_of_ofSource (some source.name) source.source
  exact (Stmt.allTestFree_iff _).mp free s (List.mem_filter.mp member).1

/-- An import under a name whose module was found. -/
structure NamedImport where
  setup : Setup
  path : String
  name : String
  source : ModuleSource

namespace NamedImport

variable (i : NamedImport)

/-- What the trace says of the import. -/
def events : List Event :=
  traceEvents i.setup ("import: " ++ i.path ++ " -> " ++ i.source.name)

/-- The state in which the declarations of the module run: there is a new scope for them, which is a
namespace of the scope that was the current one. -/
def opened (m : Machine) : Machine :=
  { m with
    store := (m.store.newRoot i.setup.natives).2.defineSpace m.scope i.name m.store.scopes.size
    scope := m.store.scopes.size
    directory := i.source.directory <|> m.directory
    importing := i.source.name :: m.importing
    events := i.events ++ m.events }

/-- Runs the declarations of the module. -/
def declare (depth : Nat) : EvalM Signal :=
  sequence (execute i.setup depth) i.source.declarations

end NamedImport

/-- How an import ends after the declarations of its module. -/
def Machine.closing (m : Machine) :
    EStateM.Result Failure Machine Signal → EStateM.Result Failure Machine Signal
  | .ok _ m₁ => .ok .next { m₁ with scope := m.scope, directory := m.directory, importing := m.importing }
  | .error e m₁ =>
    .error e { m₁ with scope := m.scope, directory := m.directory, importing := m.importing }

/-- A module that was not found, or may not be imported. -/
theorem execute_load_unfound {setup : Setup} {path : String} {place : Place} {name : Lexeme}
    {m : Machine} (depth : Nat) {e : Failure}
    (failed : findModule setup (pathLexeme path place) path m = .error e m) :
    execute setup (depth + 2) (.load path place (some name)) m = .error e m := by
  have fails : importModule setup (depth + 1) path place (some name) m = .error e m := by
    rw [importModule_succ, bind_error failed]
  rw [execute, bind_error fails]

section Load

variable {setup : Setup} {path : String} {place : Place} {name : Lexeme} {source : ModuleSource}
  {m : Machine} (found : findModule setup (pathLexeme path place) path m = .ok source m)
include found

/-- A module that was found but cannot be read. -/
theorem execute_load_unread (depth : Nat) (loud : ¬ source.read.2.isEmpty = true) :
    execute setup (depth + 2) (.load path place (some name)) m
      = .error (.at (pathLexeme path place) (.moduleErrors path source.read.2))
        { m with events := NamedImport.events ⟨setup, path, name.text, source⟩ ++ m.events } := by
  have fails : importModule setup (depth + 1) path place (some name) m
      = .error (.at (pathLexeme path place) (.moduleErrors path source.read.2))
        { m with events := NamedImport.events ⟨setup, path, name.text, source⟩ ++ m.events } := by
    have read (m₁ : Machine) : moduleDeclarations (pathLexeme path place) path source m₁
        = .error (.at (pathLexeme path place) (.moduleErrors path source.read.2)) m₁ := by
      rw [moduleDeclarations_eq, if_neg loud]
      rfl
    rw [importModule_succ, bind_ok found, bind_ok (trace_eq setup _ m)]
    unfold inImport restoring
    dsimp only
    rw [bind_error (read _)]
    rfl
  rw [execute, bind_error fails]

/-- A module that was found and read has its declarations executed. -/
theorem execute_load_opened (depth : Nat) (quiet : source.read.2.isEmpty = true) :
    execute setup (depth + 2) (.load path place (some name)) m
      = m.closing (NamedImport.declare ⟨setup, path, name.text, source⟩ depth
        (NamedImport.opened ⟨setup, path, name.text, source⟩ m)) := by
  have read (m₁ : Machine) : moduleDeclarations (pathLexeme path place) path source m₁
      = .ok source.declarations m₁ := by
    rw [moduleDeclarations_eq, if_pos quiet]
    rfl
  have opens : importModule setup (depth + 1) path place (some name) m
      = restoring (fun m₁ => { m₁ with importing := m.importing, directory := m.directory })
        (inScope m.store.scopes.size (NamedImport.declare ⟨setup, path, name.text, source⟩ depth) >>=
          fun _ => pure ())
        { NamedImport.opened ⟨setup, path, name.text, source⟩ m with scope := m.scope } := by
    rw [importModule_succ, bind_ok found, bind_ok (trace_eq setup _ m)]
    unfold inImport restoring
    dsimp only
    rw [bind_ok (read _), bind_ok (show importTarget setup (some name) _ = .ok _ _ from rfl),
      bind_ok (enterDirectory_eq _ _)]
    rfl
  unfold restoring at opens
  -- what was swapped for the import is put back, however the declarations end
  cases ran : NamedImport.declare ⟨setup, path, name.text, source⟩ depth
      (NamedImport.opened ⟨setup, path, name.text, source⟩ m) with
  | ok signal m₁ =>
    rw [bind_ok (inScope_ok ran)] at opens
    rw [execute, bind_ok opens]
    rfl
  | error e m₁ =>
    rw [bind_error (inScope_error ran)] at opens
    rw [execute, bind_error opens]
    rfl

end Load

/-- Without two levels an import does not get to its module. -/
theorem execute_load_shallow (setup : Setup) {depth : Nat} (few : depth < 2) (path : String)
    (place : Place) (name : Lexeme) (m : Machine) :
    execute setup depth (.load path place (some name)) m = .error (.defect .tooDeep) m := by
  match depth with
  | 0 => rfl
  | 1 => rw [execute, bind_error (show importModule setup 0 path place (some name) m = _ from rfl)]

/-! ## Two runs that share nothing but a new scope -/

/-- Terms under which nothing may differ but the names of references, and what was observed before. -/
def Terms.renamed (earlier earlier' : List Event) : Terms where
  place := Eq
  mode := .untested
  exact := false
  event := Eq
  earlier := earlier
  earlier' := earlier'
  refl _ := rfl
  sameEvent _ := rfl
  warning := Terms.sameWarning
  renames _ := rfl

/-- Only what is matched counts. -/
theorem Matched.agree {α : Type} {exact : Bool} {ids : Nat → Nat → Prop} {good : α → α → Prop}
    {xs ys xs' ys' : Array α} (h : Matched exact ids good xs ys) (free : exact = false)
    (kept : ∀ i j, ids i j → xs'[i]? = xs[i]? ∧ ys'[j]? = ys[j]?) : Matched exact ids good xs' ys' where
  found i j same := by
    rw [(kept i j same).1, (kept i j same).2]
    exact h.found i j same
  ordered := h.ordered
  named on := by
    rw [free] at on
    cases on

/-- Stores of which nothing is matched. -/
theorem Store.like_nothing {T : Terms} (free : T.exact = false) (s s' : Store) :
    s.Like T .nothing s' := by
  have empty : Store.empty.Like T .nothing .empty := Store.like_empty T
  exact
    { lists := empty.lists.agree free fun _ _ never => never.elim
      maps := empty.maps.agree free fun _ _ never => never.elim
      functions := empty.functions.agree free fun _ _ never => never.elim
      scopes := empty.scopes.agree free fun _ _ never => never.elim }

/-- Namespaces of scopes that are not matched do not count. -/
theorem Store.Like.defineSpace_unmatched {T : Terms} {ρ : Renaming} {s s' : Store}
    (h : s.Like T ρ s') (free : T.exact = false) {here here' : ScopeId}
    (apart : ∀ i j, ρ.scopes i j → here ≠ i ∧ here' ≠ j) (name : String) (target target' : ScopeId) :
    (s.defineSpace here name target).Like T ρ (s'.defineSpace here' name target') := by
  refine { h with scopes := h.scopes.agree free fun i j same => ?_ }
  obtain ⟨other, other'⟩ := apart i j same
  exact ⟨by rw [Store.defineSpace, Array.getElem?_modify, if_neg other],
    by rw [Store.defineSpace, Array.getElem?_modify, if_neg other']⟩

/-- A state without calls in progress and tests noted. -/
def Machine.bare (m : Machine) : Machine :=
  { m with frames := [], tests := [] }

/-- The calls in progress and the tests noted. -/
def Machine.backdrop (m : Machine) : Backdrop :=
  ⟨m.frames, m.tests⟩

/-- Failures with the same message at the same lexeme. -/
inductive Failure.SameCause : Failure → Failure → Prop
  | fault {f f' : Fault} (cause : f.cause = f'.cause) (lexeme : f.lexeme = f'.lexeme) :
      SameCause (.fault f) (.fault f')
  | defect (d : Defect) : SameCause (.defect d) (.defect d)
  | unfinished : SameCause .unfinished .unfinished

theorem Failure.SameCause.refl (e : Failure) : e.SameCause e := by
  cases e with
  | fault f => exact .fault rfl rfl
  | defect d => exact .defect d
  | unfinished => exact .unfinished

/-- Where a failure happens does not change its message. -/
theorem Failure.Like.sameCause {e e' : Failure} (h : e.Like Eq e') (b b' : Backdrop) :
    (e.over b).SameCause (e'.over b') := by
  cases h with
  | fault same =>
    cases same.eq
    exact .fault rfl rfl
  | defect d => exact .defect d
  | unfinished => exact .unfinished

/-- From the same start the same was observed, and the surroundings are the same. -/
structure Machine.SeenAlike (m m' m₁ m₁' : Machine) : Prop where
  events : ∃ seen, m₁.events = seen ++ m.events ∧ m₁'.events = seen ++ m'.events
  host : m₁.host = m₁'.host

/-- Imports under a name that came to the same: both failed in the same way, or both have made a
namespace, with the same names in it for the same values up to a renaming. -/
inductive ImportsAlike (name : String) (m m' : Machine) :
    EStateM.Result Failure Machine Signal → EStateM.Result Failure Machine Signal → Prop
  | ok {m₁ m₁' : Machine} {σ : Renaming} {target target' : ScopeId} (seen : m.SeenAlike m' m₁ m₁')
      (store : m₁.store.Like (.renamed m.events m'.events) σ m₁'.store)
      (space : (m₁.store.scope m.scope).spaces.get? name = some target)
      (space' : (m₁'.store.scope m'.scope).spaces.get? name = some target')
      (same : σ.scopes target target') : ImportsAlike name m m' (.ok .next m₁) (.ok .next m₁')
  | error {m₁ m₁' : Machine} {e e' : Failure} (seen : m.SeenAlike m' m₁ m₁') (same : e.SameCause e') :
      ImportsAlike name m m' (.error e m₁) (.error e' m₁')

/-! ## The declarations of a module -/

theorem EvalM.RanOut.iff_over {α : Type} {b : Backdrop} {r : EStateM.Result Failure Machine α} :
    RanOut (overEnd b r) ↔ RanOut r := by
  cases r with
  | ok a m => exact Iff.rfl
  | error e m => cases e <;> exact Iff.rfl

theorem EvalM.RanOut.iff_closing {m : Machine} {r : EStateM.Result Failure Machine Signal} :
    RanOut (m.closing r) ↔ RanOut r := by
  cases r <;> exact Iff.rfl

/-- Of two runs that end alike both have used up their levels, or neither has. -/
theorem EvalM.Ends.ranOut {α β : Type} {T : Terms} {ρ : Renaming} {good : Renaming → α → β → Prop}
    {r : EStateM.Result Failure Machine α} {r' : EStateM.Result Failure Machine β}
    (catching : T.mode ≠ .erasing) (h : Ends T ρ good r r') : RanOut r ↔ RanOut r' := by
  cases h with
  | ok => exact Iff.rfl
  | given allowed => exact absurd allowed catching
  | error _ _ same =>
    cases same with
    | fault same =>
      show _ = _ ↔ _ = _
      rw [same.cause]
    | defect d => exact Iff.rfl
    | unfinished => exact Iff.rfl

/-- Events that were added to the same extent are the same. -/
theorem Machine.Like.seenAlike {ρ : Renaming} {m m' m₁ m₁' : Machine}
    (h : m₁.Like (.renamed m.events m'.events) ρ m₁') : m.SeenAlike m' m₁ m₁' := by
  obtain ⟨es, es', left, right, same⟩ := h.events
  cases List.forall₂_eq_eq_eq ▸ same
  exact ⟨⟨es, left, right⟩, h.host⟩

namespace NamedImport

variable (i : NamedImport)

section One

variable (m : Machine)

/-- The store that is left alone while the declarations run. -/
def base : Store :=
  m.store.defineSpace m.scope i.name m.store.scopes.size

/-- All that the declarations get at is beyond what was there before. -/
theorem opened_beyond : (Discipline.beyond i.setup (i.base m) []).Holds (i.opened m).bare :=
  ⟨Store.apart_newRoot _ _ _ _, trivial, rfl, Nat.le_of_eq (Store.size_defineSpace _ _ _ _)⟩

theorem testFree {s : Stmt} (member : s ∈ i.source.declarations) : s.TestFree :=
  (Stmt.allTestFree_iff _).mp i.source.testFree_declarations s member

/-- The scope that was the current one keeps its new namespace. -/
theorem spaces_of_declare (inside : m.scope < m.store.scopes.size) {depth : Nat} {signal : Signal}
    {m₁ : Machine} (ran : i.declare depth (i.opened m).bare = .ok signal m₁) :
    (m₁.store.scope m.scope).spaces.get? i.name = some m.store.scopes.size := by
  have keeps := Discipline.ensures_sequence (.beyond i.setup (i.base m) [])
    fun s member => (Discipline.rules _ depth).execute s (i.testFree member)
  obtain ⟨⟨apart, -⟩, -⟩ := keeps.of_ok (i.opened_beyond m) ran
  -- the scope is one of those that were there, so it is as it was when the namespace was made
  have low : m.scope < (i.base m).scopes.size := by
    rw [base, Store.size_defineSpace]
    exact inside
  have kept := apart.scopes.old m.scope low
  rw [base, Store.defineSpace, Array.getElem?_modify, if_pos rfl, Array.getElem?_eq_getElem inside,
    Option.map_some] at kept
  rw [Store.scope, Array.getD_eq_getD_getElem?, kept, Option.getD_some]
  dsimp only
  rw [OrderedMap.get?_insert, if_pos (beq_self_eq_true i.name)]

/-- The declarations do the same with more levels and without what is around them. -/
theorem declare_elsewhere (depth more : Nat) :
    i.declare (depth + more) (i.opened m) = overEnd m.backdrop (i.declare depth (i.opened m).bare) ∨
      (0 < more ∧ RanOut (i.declare depth (i.opened m).bare)) := by
  have run := Discipline.elsewhere (.beyond i.setup (i.base m) []) (fun _ free => free) more depth
  have all := Elsewhere.sequence (fun s member => run.execute s (i.testFree member))
    fun s member => (Discipline.rules _ depth).execute s (i.testFree member)
  exact all m.backdrop (i.opened m).bare (i.opened_beyond m)

theorem declare_bare (depth : Nat) :
    i.declare depth (i.opened m) = overEnd m.backdrop (i.declare depth (i.opened m).bare) := by
  rcases i.declare_elsewhere m depth 0 with same | ⟨none, -⟩
  · exact same
  · exact absurd none (Nat.lt_irrefl 0)

end One

section Two

variable {m m' : Machine} (host : m.host = m'.host) (stands : m.StandsWith m')
  (inside : m.scope < m.store.scopes.size) (inside' : m'.scope < m'.store.scopes.size)
include host stands inside inside'

/-- The two states in which the declarations run are alike: the new scopes match. -/
theorem opened_like :
    (i.opened m).bare.Like (.renamed m.events m'.events)
      (Store.renamingScope .nothing m.store m'.store) (i.opened m').bare := by
  have importing : ∀ other,
      other ∈ i.source.name :: m.importing ↔ other ∈ i.source.name :: m'.importing := by
    intro other
    rw [List.mem_cons, List.mem_cons, stands.importing]
  have nothing : m.store.Like (.renamed m.events m'.events) .nothing m'.store :=
    Store.like_nothing rfl _ _
  refine
    { store := (nothing.newRoot i.setup.natives).defineSpace_unmatched rfl ?_ i.name _ _
      scope := .inr ⟨rfl, rfl⟩
      frames := .nil
      directory := congrArg (i.source.directory <|> ·) stands.directory
      importing := importing
      tests := .nil
      untested := fun _ => rfl
      events := ⟨_, _, rfl, rfl, List.forall₂_same.mpr fun _ _ => rfl⟩
      host := host }
  rintro k l (never | ⟨rfl, rfl⟩)
  · exact never.elim
  · exact ⟨Nat.ne_of_lt inside, Nat.ne_of_lt inside'⟩

/-- The declarations end alike if both sides have as many levels. -/
theorem declare_ends (depth : Nat) :
    Ends (.renamed m.events m'.events) (Store.renamingScope .nothing m.store m'.store) Signal.Like
      (i.declare depth (i.opened m).bare) (i.declare depth (i.opened m').bare) := by
  have follows := (evaluationFollows (.renamed m.events m'.events) i.setup depth).execute
  have same : List.Forall₂ (Stmt.Like Eq .untested) i.source.declarations i.source.declarations :=
    Stmt.Like.reflAll _ fun _ => i.source.testFree_declarations
  exact Follows.sequence follows same _ _ _ (i.opened_like host stands inside inside')

/-- Both sides end as they do at one number of levels, the smaller of the two. -/
theorem declare_abreast {depth depth' : Nat}
    (levels : depth = depth' ∨
      ¬ RanOut (i.declare depth (i.opened m)) ∧ ¬ RanOut (i.declare depth' (i.opened m'))) :
    ∃ d, i.declare depth (i.opened m) = overEnd m.backdrop (i.declare d (i.opened m).bare) ∧
      i.declare depth' (i.opened m') = overEnd m'.backdrop (i.declare d (i.opened m').bare) := by
  have both (d : Nat) : RanOut (i.declare d (i.opened m).bare) ↔
      RanOut (i.declare d (i.opened m').bare) :=
    (i.declare_ends host stands inside inside' d).ranOut fun erasing => by cases erasing
  -- the side with fewer levels sets their number, and the other one does not need more
  rcases Nat.le_total depth depth' with le | le
  · obtain ⟨more, rfl⟩ := Nat.exists_eq_add_of_le le
    refine ⟨depth, i.declare_bare m depth, ?_⟩
    rcases i.declare_elsewhere m' depth more with same | ⟨spare, ran⟩
    · exact same
    · rcases levels with same | ⟨enough, -⟩
      · omega
      · rw [i.declare_bare m depth, RanOut.iff_over, both depth] at enough
        exact absurd ran enough
  · obtain ⟨more, rfl⟩ := Nat.exists_eq_add_of_le le
    refine ⟨depth', ?_, i.declare_bare m' depth'⟩
    rcases i.declare_elsewhere m depth' more with same | ⟨spare, ran⟩
    · exact same
    · rcases levels with same | ⟨-, enough⟩
      · omega
      · rw [i.declare_bare m' depth', RanOut.iff_over, ← both depth'] at enough
        exact absurd ran enough

/-- What the declarations have come to is what the imports have come to. -/
theorem closing_alike (depth : Nat) :
    ImportsAlike i.name m m'
      (m.closing (overEnd m.backdrop (i.declare depth (i.opened m).bare)))
      (m'.closing (overEnd m'.backdrop (i.declare depth (i.opened m').bare))) := by
  -- the declarations start in states that have nothing in common but the new namespace
  have ends := i.declare_ends host stands inside inside' depth
  cases ran : i.declare depth (i.opened m).bare with
  | ok signal m₁ =>
    cases ran' : i.declare depth (i.opened m').bare with
    | ok signal' m₁' =>
      rw [ran, ran'] at ends
      cases ends with
      | ok grown state holds =>
        have space := i.spaces_of_declare m inside ran
        have space' := i.spaces_of_declare m' inside' ran'
        obtain ⟨events, host⟩ := state.seenAlike
        exact .ok ⟨events, host⟩ state.store space space' (grown.scopes _ _ (.inr ⟨rfl, rfl⟩))
    | error e' m₁' =>
      rw [ran, ran'] at ends
      cases ends
  | error e m₁ =>
    rw [ran] at ends
    generalize i.declare depth (i.opened m').bare = r' at ends ⊢
    cases ends with
    | error grown state same =>
      obtain ⟨events, host⟩ := state.seenAlike
      exact .error ⟨events, host⟩ (same.sameCause _ _)
    | given allowed => cases allowed

end Two

end NamedImport

/-! ## Independence -/

/-- The namespace that an import under a name makes does not depend on the importer. Two runs with the
same surroundings, that stand at the same place, import a module under the same name: the globals, the
scopes, the lists and maps, the calls in progress and the tests noted may be whatever they are. Both
then fail in the same way or both have a namespace with the same in it, and the same was observed. The
two may have different numbers of levels left, as long as neither uses them up. -/
theorem named_import_independent (setup : Setup) (path : String) (place : Place) (name : Lexeme)
    {depth depth' : Nat} {m m' : Machine} (host : m.host = m'.host)
    (directory : m.directory = m'.directory)
    (importing : ∀ other, other ∈ m.importing ↔ other ∈ m'.importing)
    (inside : m.scope < m.store.scopes.size) (inside' : m'.scope < m'.store.scopes.size)
    (levels : depth = depth' ∨
      ¬ RanOut (execute setup depth (.load path place (some name)) m) ∧
      ¬ RanOut (execute setup depth' (.load path place (some name)) m')) :
    ImportsAlike name.text m m' (execute setup depth (.load path place (some name)) m)
      (execute setup depth' (.load path place (some name)) m') := by
  have unchanged : m.SeenAlike m' m m' := ⟨⟨[], rfl, rfl⟩, host⟩
  have stands : m.StandsWith m' := ⟨congrArg Host.site host, directory, importing⟩
  by_cases few : depth < 2 ∨ depth' < 2
  · -- an import that does not get to its module has used up its levels
    have same : depth = depth' := by
      rcases levels with same | ⟨enough, enough'⟩
      · exact same
      · rcases few with few | few
        · rw [execute_load_shallow setup few] at enough
          exact absurd rfl enough
        · rw [execute_load_shallow setup few] at enough'
          exact absurd rfl enough'
    rw [execute_load_shallow setup (by omega), execute_load_shallow setup (by omega)]
    exact .error unchanged (.refl _)
  · obtain ⟨d, rfl⟩ : ∃ d, depth = d + 2 := ⟨depth - 2, by omega⟩
    obtain ⟨d', rfl⟩ : ∃ d', depth' = d' + 2 := ⟨depth' - 2, by omega⟩
    -- what is found depends on where one stands and on the files, which are the same
    rcases findModule_standsWith setup (pathLexeme path place) path stands with
      ⟨e, failed, failed'⟩ | ⟨source, found, found'⟩
    · rw [execute_load_unfound d failed, execute_load_unfound d' failed']
      exact .error unchanged (.refl _)
    · by_cases quiet : source.read.2.isEmpty = true
      · rw [execute_load_opened found d quiet, execute_load_opened found' d' quiet,
          RanOut.iff_closing, RanOut.iff_closing, Nat.add_right_cancel_iff] at levels
        rw [execute_load_opened found d quiet, execute_load_opened found' d' quiet]
        obtain ⟨d, left, right⟩ := NamedImport.declare_abreast _ host stands inside inside' levels
        rw [left, right]
        exact NamedImport.closing_alike ⟨setup, path, name.text, source⟩ host stands inside inside' d
      · rw [execute_load_unread found d quiet, execute_load_unread found' d' quiet]
        exact .error ⟨⟨_, rfl, rfl⟩, host⟩ (.refl _)

/-- Surroundings with one file, a module with a function. -/
def Host.oneModule : Host :=
  { Host.bare with
    files := FileTree.empty.insert ["m.tah"]
      (.file (Text.Utf8.encode "fun size() \x7breturn len;\x7d")) }

/-- A run in these surroundings, inside a call, with a built-in function redefined. -/
def Machine.redefining : Machine :=
  let m := Session.start (Session.standard {}) Host.oneModule
  { m with
    store := ((m.store.define Session.globals "len" .nil).newList #[]).2
    frames := [⟨"f", ⟨none, 3⟩⟩]
    events := [.effect .output "started"] }

/-- It imports the module as a new run does, which has fewer levels left. -/
theorem named_import_independent_redefined :
    ∃ m₁ m₁', execute (Session.standard {}) 3 (.load "m" ⟨none, 1⟩ (some ⟨"m", ⟨none, 1⟩⟩))
        (Session.start (Session.standard {}) Host.oneModule) = .ok .next m₁ ∧
      execute (Session.standard {}) 9 (.load "m" ⟨none, 1⟩ (some ⟨"m", ⟨none, 1⟩⟩))
        Machine.redefining = .ok .next m₁' ∧
      ImportsAlike "m" (Session.start (Session.standard {}) Host.oneModule) Machine.redefining
        (.ok .next m₁) (.ok .next m₁') := by
  let setup := Session.standard {}
  let source : ModuleSource := ⟨"fun size() \x7breturn len;\x7d", "/m.tah", some "/"⟩
  have read : source.read = ([.function ⟨⟨"size", ⟨some "/m.tah", 1⟩⟩, [], ⟨[], none⟩, ⟨[], none⟩⟩
      [.yield ⟨some "/m.tah", 1⟩ (some (.variable ⟨"len", ⟨some "/m.tah", 1⟩⟩))]], []) := by
    cbv
  have there : (Import.mk Host.oneModule.site none "m").source? setup = some source := by
    decide +kernel
  -- a declaration of a function succeeds from any state
  have runs (depth : Nat) (m : Machine) (host : m.host = Host.oneModule) (directory : m.directory = none)
      (idle : m.importing = []) :
      ∃ m₁, execute setup (depth + 3) (.load "m" ⟨none, 1⟩ (some ⟨"m", ⟨none, 1⟩⟩)) m
        = .ok .next m₁ := by
    have found : findModule setup (pathLexeme "m" ⟨none, 1⟩) "m" m = .ok source m := by
      rw [findModule_eq _ (by rw [host, directory]; exact there), idle]
      exact if_neg List.not_mem_nil
    rw [execute_load_opened found (depth + 1) (by rw [read]; rfl)]
    unfold NamedImport.declare ModuleSource.declarations
    dsimp only
    rw [read]
    exact ⟨_, rfl⟩
  obtain ⟨m₁, ran⟩ := runs 0 (Session.start setup Host.oneModule) rfl rfl rfl
  obtain ⟨m₁', ran'⟩ := runs 6 Machine.redefining rfl rfl rfl
  have enough : ¬ RanOut (execute setup 3 (.load "m" ⟨none, 1⟩ (some ⟨"m", ⟨none, 1⟩⟩))
      (Session.start setup Host.oneModule)) := by
    rw [ran]
    exact id
  have enough' : ¬ RanOut (execute setup 9 (.load "m" ⟨none, 1⟩ (some ⟨"m", ⟨none, 1⟩⟩))
      Machine.redefining) := by
    rw [ran']
    exact id
  have alike : ImportsAlike "m" (Session.start setup Host.oneModule) Machine.redefining
      (execute setup 3 (.load "m" ⟨none, 1⟩ (some ⟨"m", ⟨none, 1⟩⟩))
        (Session.start setup Host.oneModule))
      (execute setup 9 (.load "m" ⟨none, 1⟩ (some ⟨"m", ⟨none, 1⟩⟩)) Machine.redefining) :=
    named_import_independent setup "m" ⟨none, 1⟩ ⟨"m", ⟨none, 1⟩⟩ rfl rfl (fun _ => Iff.rfl) (by decide +kernel)
      (by decide +kernel) (.inr ⟨enough, enough'⟩)
  rw [ran, ran'] at alike
  exact ⟨m₁, m₁', ran, ran', alike⟩

end ContractScript
