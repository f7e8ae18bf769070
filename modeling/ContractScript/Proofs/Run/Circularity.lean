/-
Circular imports are caught, and nothing else is called circular.

What is being imported is noted by name, so everything depends on the names: a module
that went by two names could be imported inside itself without end, and two modules with
one name could not import each other. As every module has one name and no two share it,
the names that a state notes are those of the modules whose imports are on the trail to
that state, one for each import and no module twice. An import is refused as circular
exactly if its module is one of these, and there can be no more of them than there are
modules.

A run may write files while it imports. It never removes one, so the modules being
imported are still there.
-/
import Mathlib
import ContractScript.Proofs.Module.Naming
import ContractScript.Proofs.Run.Blame

set_option autoImplicit false

namespace ContractScript

open EvalM

/-! ## The modules on a trail -/

/-- The module that an import found. -/
def Import.origin? (setup : Setup) (i : Import) : Option Module.Origin :=
  (i.source? setup).bind fun _ => Module.origin? setup.loaders i.site i.base i.path

/-- The modules whose imports are on a trail, outermost first. -/
def Link.modules (setup : Setup) (links : List Link) : List Module.Origin :=
  (links.filterMap Link.import?).filterMap (Import.origin? setup)

theorem Import.source?_eq_some {setup : Setup} {i : Import} {source : ModuleSource} :
    i.source? setup = some source ↔
      Module.load setup.loaders i.site i.base i.path = .ok (some source) := by
  unfold Import.source?
  split
  · rename_i loaded
    rw [loaded, Except.ok.injEq]
  · rename_i failed
    rw [failed]
    simp

/-- An import that finds a module notes it by its name. -/
theorem Import.origin?_of_source? {setup : Setup} {i : Import} {source : ModuleSource}
    (absolute : Path.isAbsolute i.site.current.toList = true) (found : i.source? setup = some source) :
    ∃ o, i.origin? setup = some o ∧ o.Proper ∧ o ∈ Module.all i.site.files ∧
      source.name = o.name := by
  obtain ⟨o, meant, facts⟩ := Module.load_origin absolute (Import.source?_eq_some.mp found)
  refine ⟨o, ?_, facts⟩
  unfold Import.origin?
  rw [found, Option.bind_some, meant]

/-- Where an import is under way, its module was found and was not being imported before. -/
theorem Asks.of_load {setup : Setup} {c c' : Config} {i : Import}
    (asks : Asks setup c (.load i) c') :
    i.site = c.machine.host.site ∧
      ∃ source, i.source? setup = some source ∧ source.name ∉ c.machine.importing := by
  cases asks with
  | declaration found =>
    obtain ⟨loaded, fresh, -⟩ := findModule_ok found
    exact ⟨rfl, _, Import.source?_eq_some.mpr loaded, fresh⟩

/-! ## Files stay -/

/-- A run that stays where it is and removes no module. -/
def Discipline.lasting (setup : Setup) (start : Host) : Discipline setup where
  store _ := True
  host h := h.current = start.current ∧ ∀ o ∈ Module.all start.files, o ∈ Module.all h.files
  tests _ := True
  value _ := True
  scope _ := True
  code _ := True
  constant _ _ := trivial
  items _ _ _ _ _ _ := trivial
  entries _ _ _ _ _ _ := ⟨trivial, trivial⟩
  closure _ _ _ _ _ _ := ⟨trivial, fun _ _ => trivial⟩
  bound _ _ _ _ _ _ _ := trivial
  owner _ _ _ _ _ _ _ := trivial
  space _ _ _ _ _ _ _ := trivial
  newList _ _ _ _ := ⟨trivial, trivial⟩
  newMap _ _ _ _ := ⟨trivial, trivial⟩
  newFunction _ _ _ _ _ _ _ := ⟨trivial, trivial⟩
  newScope _ _ _ _ := ⟨trivial, trivial⟩
  newRoot _ _ := ⟨trivial, trivial⟩
  push _ _ _ _ _ _ := trivial
  put _ _ _ _ _ _ _ _ := trivial
  define _ _ _ _ _ _ _ := trivial
  defineSpace _ _ _ _ _ _ _ := trivial
  block _ _ _ _ := trivial
  branchTrue _ _ _ _ := trivial
  branchFalse _ _ _ _ := trivial
  loop _ _ _ := trivial
  test _ _ _ _ := trivial
  record _ _ _ _ _ _ _ := trivial
  module _ _ _ _ _ := trivial
  sameSite h h' hh same := by
    have current := congrArg Module.Site.current same
    have files := congrArg Module.Site.files same
    dsimp only [Host.site] at current files
    rw [current, files]
    exact hh
  write h h' base path content hh written := by
    obtain ⟨current, kept⟩ := Host.mem_all_write written
    exact ⟨current.trans hh.1, fun o ho => kept o (hh.2 o ho)⟩

theorem Discipline.lasting_governs (setup : Setup) (host : Host) :
    (Discipline.lasting setup host).Governs host where
  start := ⟨trivial, ⟨rfl, fun _ h => h⟩, trivial, trivial⟩
  reported := trivial
  script _ _ _ _ _ := trivial

/-- What an evaluation asks for happens in the same place, where every module still is. -/
theorem Asks.lasting {setup : Setup} {c c' : Config} {link : Link} (asks : Asks setup c link c') :
    c'.machine.host.current = c.machine.host.current ∧
      ∀ o ∈ Module.all c.machine.host.files, o ∈ Module.all c'.machine.host.files := by
  have admitted : (Discipline.lasting setup c.machine.host).Admits c := by
    refine ⟨⟨trivial, ⟨rfl, fun _ h => h⟩, trivial, trivial⟩, ?_⟩
    cases c.task with
    | evaluate | load | execute => trivial
    | call | invoke => exact ⟨trivial, fun _ _ => trivial⟩
  exact (admitted.asks asks).1.2.1

/-! ## What a state notes as being imported -/

/-- The names that a state notes are those of the modules on the trail that leads to it. -/
structure Config.Notes (setup : Setup) (links : List Link) (c : Config) : Prop where
  absolute : Path.isAbsolute c.machine.host.current.toList = true
  names : c.machine.importing = ((Link.modules setup links).map Module.Origin.name).reverse
  each : (Link.modules setup links).length = (links.filterMap Link.import?).length
  proper : ∀ o ∈ Link.modules setup links, o.Proper
  present : ∀ o ∈ Link.modules setup links, o ∈ Module.all c.machine.host.files
  distinct : (Link.modules setup links).Nodup

theorem Link.modules_append (setup : Setup) (links more : List Link) :
    Link.modules setup (links ++ more) = Link.modules setup links ++ Link.modules setup more := by
  unfold Link.modules
  rw [List.filterMap_append, List.filterMap_append]

/-- A link that begins no import changes nothing. -/
theorem Config.Notes.other {setup : Setup} {links : List Link} {c c' : Config} {link : Link}
    (h : c.Notes setup links) (asks : Asks setup c link c') (none : link.import? = none) :
    c'.Notes setup (links ++ [link]) := by
  obtain ⟨current, kept⟩ := asks.lasting
  have modules : Link.modules setup (links ++ [link]) = Link.modules setup links := by
    rw [Link.modules_append]
    simp [Link.modules, none]
  have imports : (links ++ [link]).filterMap Link.import? = links.filterMap Link.import? := by
    rw [List.filterMap_append]
    simp [none]
  -- neither the modules nor the names that are noted have become more
  have names := congrArg Prod.snd asks.progress
  simp only [Machine.progress, Link.module?, none, Option.bind_none, Option.map_none,
    Option.toList_none, List.nil_append] at names
  constructor
  · rw [current]
    exact h.absolute
  · rw [names, modules]
    exact h.names
  · rw [modules, imports]
    exact h.each
  · rw [modules]
    exact h.proper
  · rw [modules]
    exact fun o ho => kept o (h.present o ho)
  · rw [modules]
    exact h.distinct

/-- A link that begins an import adds its module, which was not among the others. -/
theorem Config.Notes.load {setup : Setup} {links : List Link} {c c' : Config} {i : Import}
    (h : c.Notes setup links) (asks : Asks setup c (.load i) c') :
    c'.Notes setup (links ++ [.load i]) := by
  obtain ⟨current, kept⟩ := asks.lasting
  obtain ⟨site, source, found, fresh⟩ := asks.of_load
  have absolute : Path.isAbsolute i.site.current.toList = true := by
    rw [site]
    exact h.absolute
  obtain ⟨o, meant, proper, present, named⟩ := Import.origin?_of_source? absolute found
  have modules : Link.modules setup (links ++ [.load i]) = Link.modules setup links ++ [o] := by
    rw [Link.modules_append]
    simp [Link.modules, Link.import?, meant]
  have imports : (links ++ [Link.load i]).filterMap Link.import?
      = links.filterMap Link.import? ++ [i] := by
    rw [List.filterMap_append]
    simp [Link.import?]
  -- the module and its name are added at the same end
  have names := congrArg Prod.snd asks.progress
  simp only [Machine.progress, Link.module?, Link.import?, Option.bind_some, found, Option.map_some,
    Option.toList_some, List.singleton_append] at names
  constructor
  · rw [current]
    exact h.absolute
  · rw [names, modules, h.names, named, List.map_append, List.reverse_append]
    rfl
  · rw [modules, imports, List.length_append, List.length_append, h.each]
    rfl
  · rw [modules, List.forall_mem_append]
    exact ⟨h.proper, by simpa using proper⟩
  · rw [modules, List.forall_mem_append]
    refine ⟨fun o ho => kept o (h.present o ho), ?_⟩
    rw [site] at present
    simpa using kept o present
  · -- were the module among the others, its name would have been noted
    have new : o ∉ Link.modules setup links := by
      intro member
      refine fresh ?_
      rw [h.names, named, List.mem_reverse]
      exact List.mem_map_of_mem member
    rw [modules, List.nodup_append]
    refine ⟨h.distinct, List.pairwise_singleton _ o, fun a ha b hb same => new ?_⟩
    rw [← List.mem_singleton.mp hb, ← same]
    exact ha

/-- Wherever a session has got to, what is noted is what is being imported. -/
theorem Session.Begins.notes {setup : Setup} {host : Host} {scripts : List (String × Option String)}
    {source : String} {name : Option String} {s : Stmt} {m : Machine} {links : List Link} {c : Config}
    (absolute : Path.isAbsolute host.current.toList = true)
    (begins : ((Session.new setup host).after scripts).Begins source name s m)
    (trail : Trail setup (.top setup s m) links c) : c.Notes setup links := by
  refine trail.along (P := fun links c => c.Notes setup links) ?_ ?_
  · -- at the top level nothing is being imported, and the run is where the session was started
    obtain ⟨⟨-, ⟨current, -⟩, -⟩, -⟩ := (Discipline.lasting_governs setup host).begins begins
    have none := congrArg Prod.snd begins.progress
    refine ⟨?_, none, rfl, ?_, ?_, List.nodup_nil⟩
    · show Path.isAbsolute m.host.current.toList = true
      rw [current]
      exact absolute
    · exact fun _ h => absurd h List.not_mem_nil
    · exact fun _ h => absurd h List.not_mem_nil
  · intro links c link c' _ notes asks
    cases kind : link.import? with
    | none => exact notes.other asks kind
    | some i =>
      cases link with
      | load => exact notes.load asks
      | _ => cases kind

/-! ## Imports that are refused as circular -/

/-- What an import finds is refused if its name is noted, and taken if not. -/
theorem findModule_eq {setup : Setup} (lexeme : Lexeme) {path : String} {source : ModuleSource}
    {m : Machine} (found : (Import.mk m.host.site m.directory path).source? setup = some source) :
    findModule setup lexeme path m
      = if source.name ∈ m.importing then .error (.at lexeme (.circularImport path)) m
        else .ok source m := by
  have loaded := Import.source?_eq_some.mp found
  unfold findModule
  rw [get_bind]
  dsimp only at loaded ⊢
  rw [loaded]
  dsimp only
  by_cases noted : source.name ∈ m.importing
  · rw [if_pos (List.contains_iff_mem.mpr noted), if_pos noted]
    rfl
  · rw [if_neg (by rwa [List.contains_iff_mem]), if_neg noted]
    rfl

/-- Nothing else is refused in that way. -/
theorem of_findModule_circular {setup : Setup} {lexeme : Lexeme} {path text : String} {m : Machine}
    {f : Fault} (failed : EvalM.Fails (findModule setup lexeme path) m f)
    (cause : f.cause = .circularImport text) :
    text = path ∧ f = ⟨.circularImport path, some lexeme, none⟩ ∧
      ∃ source, (Import.mk m.host.site m.directory path).source? setup = some source ∧
        source.name ∈ m.importing := by
  obtain ⟨m', failed⟩ := failed
  unfold findModule at failed
  rw [get_bind] at failed
  cases loaded : Module.load setup.loaders m.host.site m.directory path with
  | error e =>
    rw [loaded] at failed
    cases e <;> cases failed
    cases cause
  | ok answer =>
    rw [loaded] at failed
    cases answer with
    | none =>
      cases failed
      cases cause
    | some source =>
      dsimp only at failed
      split at failed
      -- the name is found among those noted, and nothing else is called circular
      · rename_i noted
        cases failed
        cases cause
        exact ⟨rfl, rfl, source, Import.source?_eq_some.mpr loaded, List.contains_iff_mem.mp noted⟩
      · cases failed

theorem moduleDeclarations_cause {lexeme : Lexeme} {path : String} {source : ModuleSource}
    {m : Machine} {f : Fault} (failed : EvalM.Fails (moduleDeclarations lexeme path source) m f) :
    ∃ diagnostics, f.cause = .moduleErrors path diagnostics := by
  obtain ⟨m', failed⟩ := failed
  unfold moduleDeclarations at failed
  dsimp only at failed
  split at failed
  · cases failed
  · cases failed
    exact ⟨_, rfl⟩

/-- An import that is itself refused as circular is so when its module is looked for. -/
theorem Config.Raises.findModule {setup : Setup} {depth : Nat} {path text : String} {place : Place}
    {space : Option Lexeme} {m : Machine} {f : Fault}
    (raises : Config.Raises setup ⟨depth + 1, .load path place space, m⟩)
    (failed : Config.Fails setup ⟨depth + 1, .load path place space, m⟩ f)
    (cause : f.cause = .circularImport text) :
    EvalM.Fails (EvalM.findModule setup (pathLexeme path place) path) m f := by
  have failed : EvalM.Fails (importModule setup (depth + 1) path place space) m f := failed
  rw [importModule_succ] at failed
  rcases fails_bind.mp failed with failed | ⟨source, m₁, found, failed⟩
  · exact failed
  rcases fails_bind.mp failed with failed | ⟨_, m₂, traced, failed⟩
  · exact absurd failed (Blames.trace setup _).never
  rcases fails_bind.mp (fails_inImport.mp failed) with failed | ⟨program, m₃, read, failed⟩
  · -- a module that is not well formed is refused for that
    obtain ⟨diagnostics, other⟩ := moduleDeclarations_cause failed
    rw [other] at cause
    cases cause
  rcases fails_bind.mp failed with failed | ⟨target, m₄, made, failed⟩
  · exact absurd failed (Blames.importTarget setup _).never
  rcases fails_bind.mp failed with failed | ⟨_, m₅, entered, failed⟩
  · exact absurd failed (Blames.enterDirectory _).never
  rcases fails_bind.mp failed with failed | ⟨_, m₆, -, failed⟩
  · -- what a declaration raises is not raised by the import itself
    obtain ⟨s, m₆, reached, failed⟩ := fails_sequence.mp (fails_inScope.mp failed)
    exact absurd failed (raises.2 _ _ _ (.declaration found traced read made entered reached)
      Link.noConfusion)
  · exact absurd failed (Blames.pure _).never

/-- A fault that says so is raised by an import, and by no other evaluation. -/
theorem Config.Raises.load_of_circular {setup : Setup} {c : Config} {f : Fault} {text : String}
    (raises : c.Raises setup) (failed : c.Fails setup f) (cause : f.cause = .circularImport text) :
    ∃ depth path place space, c.depth = depth + 1 ∧ c.task = .load path place space := by
  have load : c.task.isLoad = true := by
    cases failed.explained with
    | raised _ may => exact may.2 (by rw [cause]; rfl)
    | overflow other =>
      rw [other] at cause
      cases cause
    | asked asks caught below => exact absurd below (raises.2 _ _ _ asks caught)
  obtain ⟨depth, task, m⟩ := c
  cases task with
  | load path place space =>
    cases depth with
    | zero => exact absurd failed (Blames.defect _).never
    | succ depth => exact ⟨depth, path, place, space, rfl, rfl⟩
  | _ => cases load

/-- An import is refused as circular exactly if its module is already being imported. -/
theorem Config.Notes.circular_iff {setup : Setup} {links : List Link} {depth : Nat} {path : String}
    {place : Place} {space : Option Lexeme} {m : Machine}
    (notes : Config.Notes setup links ⟨depth + 1, .load path place space, m⟩) :
    (Config.Raises setup ⟨depth + 1, .load path place space, m⟩ ∧
      Config.Fails setup ⟨depth + 1, .load path place space, m⟩
        ⟨.circularImport path, some (pathLexeme path place), none⟩) ↔
    ∃ o ∈ Link.modules setup links,
      (Import.mk m.host.site m.directory path).origin? setup = some o := by
  let i : Import := ⟨m.host.site, m.directory, path⟩
  have absolute : Path.isAbsolute i.site.current.toList = true := notes.absolute
  have names : m.importing = ((Link.modules setup links).map Module.Origin.name).reverse := notes.names
  constructor
  · rintro ⟨raises, failed⟩
    obtain ⟨-, -, source, found, noted⟩ := of_findModule_circular (raises.findModule failed rfl) rfl
    obtain ⟨o, meant, proper, -, named⟩ := Import.origin?_of_source? absolute found
    rw [names, List.mem_reverse, List.mem_map] at noted
    obtain ⟨o', member, same⟩ := noted
    -- the name is that of a module being imported, so the modules are the same
    have equal : o' = o :=
      Module.Origin.name_injective (notes.proper o' member) proper (same.trans named)
    exact ⟨o', member, equal ▸ meant⟩
  · rintro ⟨o, member, meant⟩
    obtain ⟨source, found⟩ : ∃ source, i.source? setup = some source := by
      unfold Import.origin? at meant
      obtain ⟨source, found, -⟩ := Option.bind_eq_some_iff.mp meant
      exact ⟨source, found⟩
    obtain ⟨o', meant', -, -, named⟩ := Import.origin?_of_source? absolute found
    have same : o' = o := by
      rw [meant'] at meant
      exact Option.some.inj meant
    -- under whatever spelling the module was found, its name is the one that is noted
    have noted : source.name ∈ m.importing := by
      rw [names, List.mem_reverse, named, same]
      exact List.mem_map_of_mem member
    have refused := findModule_eq (pathLexeme path place) found
    rw [if_pos noted] at refused
    have failed : Config.Fails setup ⟨depth + 1, .load path place space, m⟩
        ⟨.circularImport path, some (pathLexeme path place), none⟩ :=
      .first ⟨m, refused⟩
    refine ⟨⟨⟨_, failed⟩, fun link c' f asks => ?_⟩, failed⟩
    cases asks with
    | declaration opened => cases refused.symm.trans opened

/-! ## The whole of it -/

/-- The state in which an evaluation ends, however it does. -/
def Config.finalState (setup : Setup) (c : Config) : Machine :=
  match c.task with
  | .evaluate e => EvalM.finalState (evaluate setup c.depth e) c.machine
  | .call place f arguments => EvalM.finalState (callValue setup c.depth place f arguments) c.machine
  | .invoke f arguments => EvalM.finalState (invoke setup c.depth f arguments) c.machine
  | .execute s => EvalM.finalState (execute setup c.depth s) c.machine
  | .load path place space =>
    EvalM.finalState (importModule setup c.depth path place space) c.machine

theorem Config.importing_finalState (setup : Setup) (c : Config) :
    (c.finalState setup).importing = c.machine.importing := by
  have kept := evaluationKeeps setup c.depth
  have same : (c.finalState setup).surroundings = c.machine.surroundings := by
    unfold Config.finalState
    split
    · exact kept.evaluate _ _
    · exact kept.callValue _ _ _ _
    · exact kept.invoke _ _ _
    · exact kept.execute _ _
    · exact kept.importModule _ _ _ _
  exact congrArg Surroundings.importing same

/-- Circular imports are caught, and nothing else is called circular. At every evaluation that a
session comes to, and again when that ends, the names that the state notes are those of the modules
whose imports are in progress, innermost first; no module is among them twice, so there are no more
of them than there are modules. An import is refused as circular exactly if the module that its path
means is one of them, and every fault that says so comes from such an import. The current directory
is taken to be given from the root. -/
theorem Session.circular_imports_caught (setup : Setup) (host : Host)
    (absolute : Path.isAbsolute host.current.toList = true) (scripts : List (String × Option String))
    (source : String) (name : Option String) (s : Stmt) (m : Machine)
    (begins : ((Session.new setup host).after scripts).Begins source name s m) (links : List Link)
    (c : Config) (trail : Trail setup (.top setup s m) links c) :
    c.machine.importing = ((Link.modules setup links).map Module.Origin.name).reverse ∧
    (c.finalState setup).importing = c.machine.importing ∧
    (Link.modules setup links).length = (links.filterMap Link.import?).length ∧
    (Link.modules setup links).Nodup ∧
    (Module.all c.machine.host.files).Nodup ∧
    (Link.modules setup links).length ≤ (Module.all c.machine.host.files).length ∧
    (∀ depth path place space, c.depth = depth + 1 → c.task = .load path place space →
      ((c.Raises setup ∧
          c.Fails setup ⟨.circularImport path, some (pathLexeme path place), none⟩) ↔
        ∃ o ∈ Link.modules setup links,
          (Import.mk c.machine.host.site c.machine.directory path).origin? setup = some o)) ∧
    ∀ f text, c.Raises setup → c.Fails setup f → f.cause = .circularImport text →
      ∃ place space, c.task = .load text place space ∧
        ∃ o ∈ Link.modules setup links,
          (Import.mk c.machine.host.site c.machine.directory text).origin? setup = some o := by
  have notes := begins.notes absolute trail
  -- the modules in progress are different ones, and each is there
  have few : (Link.modules setup links).length ≤ (Module.all c.machine.host.files).length :=
    (List.subperm_of_subset notes.distinct notes.present).length_le
  refine ⟨notes.names, c.importing_finalState setup, notes.each, notes.distinct,
    Module.nodup_all _, few, ?_, ?_⟩
  · intro depth path place space levels task
    obtain ⟨_, _, m'⟩ := c
    cases levels
    cases task
    exact notes.circular_iff
  · intro f text raises failed cause
    obtain ⟨depth, path, place, space, levels, task⟩ := raises.load_of_circular failed cause
    obtain ⟨_, _, m'⟩ := c
    cases levels
    cases task
    obtain ⟨rfl, rfl, -⟩ := of_findModule_circular (raises.findModule failed cause) cause
    exact ⟨place, space, rfl, notes.circular_iff.mp ⟨raises, failed⟩⟩

/-- Surroundings with one file, a module that imports itself by another spelling. -/
def Host.selfImport : Host :=
  { Host.bare with
    files := FileTree.empty.insert ["a.tah"] (.file (Text.Utf8.encode "import \"./a\";")) }

/-- A script that imports that module comes to import it again, inside itself, and that is refused. -/
theorem Session.circular_imports_caught_selfImport :
    ∃ s m links c, ((Session.new (Session.standard {}) Host.selfImport).after []).Begins
        "import \"a.tah\";" none s m ∧
      Trail (Session.standard {}) (.top (Session.standard {}) s m) links c ∧
      c.machine.importing = ["/a.tah"] ∧
      c.Fails (Session.standard {})
        ⟨.circularImport "./a", some (pathLexeme "./a" ⟨some "/a.tah", 1⟩), none⟩ := by
  let setup := Session.standard {}
  let m := Session.start setup Host.selfImport
  let source : ModuleSource := ⟨"import \"./a\";", "/a.tah", some "/"⟩
  let inside : Machine := { m with importing := ["/a.tah"], directory := some "/" }
  have script : Program.ofSource false none "import \"a.tah\";"
      = ([.load "a.tah" ⟨none, 1⟩ none], []) := by
    cbv
  have module : Program.ofSource false (some "/a.tah") "import \"./a\";"
      = ([.load "./a" ⟨some "/a.tah", 1⟩ none], []) := by
    cbv
  have first : (Import.mk m.host.site m.directory "a.tah").source? setup = some source := by
    decide +kernel
  have again : (Import.mk inside.host.site inside.directory "./a").origin? setup
      = some (.file ["a.tah"]) := by
    decide +kernel
  have begins : ((Session.new setup Host.selfImport).after []).Begins "import \"a.tah\";" none
      (.load "a.tah" ⟨none, 1⟩ none) m :=
    ⟨_, script, .first⟩
  have found : findModule setup (pathLexeme "a.tah" ⟨none, 1⟩) "a.tah" m = .ok source m := by
    rw [findModule_eq _ first]
    exact if_neg List.not_mem_nil
  have read : moduleDeclarations (pathLexeme "a.tah" ⟨none, 1⟩) "a.tah" source
      { m with importing := ["/a.tah"] }
      = .ok [.load "./a" ⟨some "/a.tah", 1⟩ none] { m with importing := ["/a.tah"] } := by
    unfold moduleDeclarations
    rw [module]
    rfl
  -- the declaration of the module is the import that is refused
  have trail : Trail setup (.top setup (.load "a.tah" ⟨none, 1⟩ none) m)
      [.part, .load ⟨m.host.site, m.directory, "a.tah"⟩, .part]
      ⟨997, .load "./a" ⟨some "/a.tah", 1⟩ none, inside⟩ :=
    .step .load (.step (.declaration found rfl read rfl rfl .first) (.step .load .here))
  have modules : Link.modules setup [.part, .load ⟨m.host.site, m.directory, "a.tah"⟩, .part]
      = [.file ["a.tah"]] := by
    decide +kernel
  obtain ⟨noted, -, -, -, -, -, refused, -⟩ := Session.circular_imports_caught setup Host.selfImport rfl
    [] _ _ _ _ begins _ _ trail
  rw [modules] at noted refused
  obtain ⟨-, failed⟩ := (refused 996 "./a" _ _ rfl rfl).mpr ⟨_, List.mem_cons_self, again⟩
  exact ⟨_, _, _, _, begins, trail, noted, failed⟩

end ContractScript
