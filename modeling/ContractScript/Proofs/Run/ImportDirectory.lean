/-
Where imports are seen from.

A relative import is seen from a directory that the state of a run holds. It is entered when
the import of a module in a file starts, and left when that import ends. So what counts is
which imports are in progress: an import is seen from the directory of the innermost module
in a file that is being imported, or from the directory of the session if there is none.
The file that the import was written in does not come into it. For a declaration of a module
the two are the same. For an import in the body of a function they need not be, since the
function may be called when the import of its module is over, or while another module is
being imported.
-/
import Mathlib
import ContractScript.Proofs.Module.Directory
import ContractScript.Proofs.Run.Circularity

set_option autoImplicit false

namespace ContractScript

open EvalM

/-! ## The innermost file -/

/-- The steps to a module that is a file. -/
def Module.Origin.steps? : Module.Origin → Option (List String)
  | .bundled _ => none
  | .file steps => some steps

/-- The files whose imports are on a trail, outermost first. -/
def Link.files (setup : Setup) (links : List Link) : List (List String) :=
  (Link.modules setup links).filterMap Module.Origin.steps?

theorem Link.files_append (setup : Setup) (links more : List Link) :
    Link.files setup (links ++ more) = Link.files setup links ++ Link.files setup more := by
  unfold Link.files
  rw [Link.modules_append, List.filterMap_append]

/-- The directory that imports are seen from behind some links, as steps from the root: that of the
innermost file, or that of the session. -/
def Link.seat (setup : Setup) (site : Module.Site) (links : List Link) : List String :=
  match (Link.files setup links).getLast? with
  | some steps => steps.dropLast
  | none => Module.seat site setup.settings.directory

/-- A link either begins the import of a file, which is in the directory that is then entered, or
leaves files and directory alone. -/
theorem Link.files_singleton {setup : Setup} {link : Link}
    (absolute : ∀ i, link = .load i → Path.isAbsolute i.site.current.toList = true)
    (found : ∀ i, link = .load i → ∃ source, i.source? setup = some source) :
    (Link.files setup [link] = [] ∧ link.directory? setup = none) ∨
      ∃ i steps dir, link = .load i ∧ Link.files setup [link] = [steps] ∧
        link.directory? setup = some dir ∧ Module.seat i.site (some dir) = steps.dropLast := by
  cases link with
  | load i =>
    obtain ⟨source, found⟩ := found i rfl
    have origin : i.origin? setup = Module.origin? setup.loaders i.site i.base i.path := by
      unfold Import.origin?
      rw [found, Option.bind_some]
    have directory : (Link.load i).directory? setup = source.directory := by
      simp [Link.directory?, Link.import?, found]
    rcases Module.load_directory (absolute i rfl) (Import.source?_eq_some.mp found) with
      ⟨name, meant, none⟩ | ⟨steps, dir, meant, some, seat⟩
    · rw [meant] at origin
      refine .inl ⟨?_, directory.trans none⟩
      simp [Link.files, Link.modules, Link.import?, origin, Module.Origin.steps?]
    · rw [meant] at origin
      refine .inr ⟨i, steps, dir, rfl, ?_, directory.trans some, seat⟩
      simp [Link.files, Link.modules, Link.import?, origin, Module.Origin.steps?]
  | _ => exact .inl ⟨rfl, rfl⟩

/-- A question is put from the directory of the innermost file, if the evaluation that puts it was. -/
theorem Asks.seat {setup : Setup} {links : List Link} {c c' : Config} {link : Link}
    (absolute : Path.isAbsolute c.machine.host.current.toList = true) (asks : Asks setup c link c')
    (seen : Module.seat c.machine.host.site c.machine.directory
      = Link.seat setup c.machine.host.site links) :
    Module.seat c'.machine.host.site c'.machine.directory
      = Link.seat setup c'.machine.host.site (links ++ [link]) := by
  obtain ⟨current, -⟩ := asks.lasting
  have same (base : Option String) :
      Module.seat c'.machine.host.site base = Module.seat c.machine.host.site base :=
    Module.seat_congr current base
  have directory : c'.machine.directory = (link.directory? setup).or c.machine.directory :=
    congrArg (fun context => context.2.2) asks.context
  have started (i : Import) (load : link = .load i) :
      i.site = c.machine.host.site ∧ ∃ source, i.source? setup = some source := by
    subst load
    obtain ⟨site, source, found, -⟩ := asks.of_load
    exact ⟨site, source, found⟩
  have rooted (i : Import) (load : link = .load i) : Path.isAbsolute i.site.current.toList = true := by
    rw [(started i load).1]
    exact absolute
  -- only the import of a file moves the directory, and it moves it to that of the file
  rcases Link.files_singleton rooted fun i load => (started i load).2 with
    ⟨files, none⟩ | ⟨i, steps, dir, load, files, some, seat⟩
  · rw [directory, none, Option.none_or, same, seen]
    unfold Link.seat
    rw [Link.files_append, files, List.append_nil, same]
  · rw [directory, some, Option.some_or, same, ← (started i load).1, seat]
    unfold Link.seat
    rw [Link.files_append, files, List.getLast?_concat]

/-- Wherever a session has got to, imports are seen from the directory of the innermost file that is
being imported. -/
theorem Session.Begins.seat {setup : Setup} {host : Host} {scripts : List (String × Option String)}
    {source : String} {name : Option String} {s : Stmt} {m : Machine} {links : List Link} {c : Config}
    (absolute : Path.isAbsolute host.current.toList = true)
    (begins : ((Session.new setup host).after scripts).Begins source name s m)
    (trail : Trail setup (.top setup s m) links c) :
    Module.seat c.machine.host.site c.machine.directory = Link.seat setup c.machine.host.site links := by
  refine trail.along (P := fun links c => Module.seat c.machine.host.site c.machine.directory
    = Link.seat setup c.machine.host.site links) ?_ ?_
  · have directory : m.directory = setup.settings.directory :=
      congrArg (fun context => context.2.2) begins.context
    show Module.seat m.host.site m.directory = _
    rw [directory]
    rfl
  · intro links c link c' reached seen asks
    exact asks.seat (begins.notes absolute reached).absolute seen

/-! ## The whole of it -/

/-- A relative import is seen from the directory of the innermost file that is being imported, or from
that of the session if there is none, whatever file it was written in: what it finds in a file lies
where its path leads from there, as it stands or with the usual end. So an import that was written in a
file is seen from the directory of that file exactly if that is the directory just named; which it is
when the file is itself the innermost one. The current directory is taken to be given from the root. -/
theorem Session.imports_seen_from_innermost (setup : Setup) (host : Host)
    (absolute : Path.isAbsolute host.current.toList = true) (scripts : List (String × Option String))
    (source : String) (name : Option String) (s : Stmt) (m : Machine)
    (begins : ((Session.new setup host).after scripts).Begins source name s m) (links : List Link)
    (depth : Nat) (path : String) (place : Place) (space : Option Lexeme) (m₀ : Machine)
    (trail : Trail setup (.top setup s m) links ⟨depth, .load path place space, m₀⟩) :
    Module.seat m₀.host.site m₀.directory = Link.seat setup m₀.host.site links ∧
    (∀ module m', findModule setup (pathLexeme path place) path m₀ = .ok module m' →
      setup.loaders.find? (Module.Loader.claims path) = some .files →
      Path.isAbsolute path.toList = false → path.toList.head? ≠ some '~' →
      Path.EndsInName path.toList → ∃ found, module.name = (Module.Origin.file found).name ∧
        (found = Path.walked (Link.seat setup m₀.host.site links) path.toList ∨
          found = Path.walked (Link.seat setup m₀.host.site links) (path ++ Module.suffix).toList)) ∧
    ∀ file, place.file = some (Module.Origin.file file).name →
      ((Link.files setup links).getLast? = some file →
        Module.seat m₀.host.site m₀.directory = file.dropLast) ∧
      (Module.seat m₀.host.site m₀.directory = file.dropLast ↔
        (∃ other, (Link.files setup links).getLast? = some other ∧ other.dropLast = file.dropLast) ∨
        (Link.files setup links = [] ∧
          Module.seat m₀.host.site setup.settings.directory = file.dropLast)) := by
  have seen := begins.seat absolute trail
  dsimp only at seen
  have rooted : Path.isAbsolute m₀.host.site.current.toList = true := (begins.notes absolute trail).absolute
  refine ⟨seen, ?_, ?_⟩
  · intro module m' found claimed relative home named
    obtain ⟨loaded, -, -⟩ := findModule_ok found
    unfold Module.load at loaded
    rw [claimed] at loaded
    rw [← seen]
    exact Module.fromFiles_walked rooted relative home named loaded
  · intro file _
    rw [seen]
    unfold Link.seat
    -- without an import in progress the directory is that of the session
    cases innermost : (Link.files setup links).getLast? with
    | none =>
      rw [List.getLast?_eq_none_iff] at innermost
      simp [innermost]
    | some other =>
      have some : Link.files setup links ≠ [] := by
        intro none
        rw [none] at innermost
        cases innermost
      constructor
      · intro same
        rw [Option.some.inj same]
      · simp [some]

/-- Surroundings with two files in one directory: a module with a function that imports the other
one, and that one. -/
def Host.lateImport : Host :=
  { Host.bare with
    files := (FileTree.empty.insert ["lib", "a.tah"]
      (.file (Text.Utf8.encode "fun f() \x7b import \"b\"; return x; \x7d"))).insert ["lib", "b.tah"]
        (.file (Text.Utf8.encode "var x = 1;")) }

/-- When the function is called after the import of its module, its import is seen from the root, not
from the directory of the file in which it was written. -/
theorem Session.imports_seen_from_innermost_late :
    ∃ s m links depth m₀, ((Session.new (Session.standard {}) Host.lateImport).after []).Begins
        "import \"lib/a\" as a; a::f();" none s m ∧
      Trail (Session.standard {}) (.top (Session.standard {}) s m) links
        ⟨depth, .load "b" ⟨some (Module.Origin.file ["lib", "a.tah"]).name, 1⟩ none, m₀⟩ ∧
      Link.files (Session.standard {}) links = [] ∧
      Module.seat m₀.host.site m₀.directory = [] ∧
      Module.seat m₀.host.site m₀.directory ≠ ["lib", "a.tah"].dropLast := by
  let setup := Session.standard {}
  let m := Session.start setup Host.lateImport
  let place : Place := ⟨some "/lib/a.tah", 1⟩
  let body : List Stmt := [.load "b" place none, .yield place (some (.variable ⟨"x", place⟩))]
  let signature : Signature := ⟨⟨"f", place⟩, [], .none, .none⟩
  let source : ModuleSource :=
    ⟨"fun f() \x7b import \"b\"; return x; \x7d", "/lib/a.tah", some "/lib"⟩
  let imported : Machine := { m with
    store := (((m.store.newRoot setup.natives).2.defineSpace 0 "a" 1).newFunction
      ⟨signature, body, 1⟩).2.define 1 "f" (.function 0) }
  have script : Program.ofSource false none "import \"lib/a\" as a; a::f();"
      = ([.load "lib/a" ⟨none, 1⟩ (some ⟨"a", ⟨none, 1⟩⟩),
          .expression (.call (.qualified [⟨"a", ⟨none, 1⟩⟩] ⟨"f", ⟨none, 1⟩⟩) ⟨none, 1⟩ [])], []) := by
    cbv
  have module : Program.ofSource false (some "/lib/a.tah") "fun f() \x7b import \"b\"; return x; \x7d"
      = ([.function signature body], []) := by
    cbv
  have first : (Import.mk m.host.site m.directory "lib/a").source? setup = some source := by
    decide +kernel
  have found : findModule setup (pathLexeme "lib/a" ⟨none, 1⟩) "lib/a" m = .ok source m := by
    rw [findModule_eq _ first]
    exact if_neg List.not_mem_nil
  have read : moduleDeclarations (pathLexeme "lib/a" ⟨none, 1⟩) "lib/a" source
      { m with importing := ["/lib/a.tah"] }
      = .ok [.function signature body] { m with importing := ["/lib/a.tah"] } := by
    unfold moduleDeclarations
    rw [module]
    rfl
  have loads : importModule setup 999 "lib/a" ⟨none, 1⟩ (some ⟨"a", ⟨none, 1⟩⟩) m = .ok () imported := by
    rw [importModule_succ setup 998, bind_ok found,
      bind_ok (show trace setup _ m = .ok () m from rfl)]
    unfold inImport restoring
    dsimp only
    rw [show m.importing = [] from rfl, bind_ok read]
    rfl
  have executed : execute setup 1000 (.load "lib/a" ⟨none, 1⟩ (some ⟨"a", ⟨none, 1⟩⟩)) m
      = .ok .next imported := by
    rw [execute, bind_ok loads]
    rfl
  have ran : runTop setup (.load "lib/a" ⟨none, 1⟩ (some ⟨"a", ⟨none, 1⟩⟩)) m = .ok .nil imported := by
    unfold runTop
    dsimp only
    rw [show setup.limits.depth = 1000 from rfl, bind_ok executed]
    rfl
  have space : imported.store.space? 0 "a" = some 1 := by
    rw [Store.space?, Store.findOutward]
    rfl
  have function : imported.store.value? 1 "f" = some (.function 0) := by
    rw [Store.value?, Store.findOutward]
    rfl
  have callee : evaluate setup 999 (.qualified [⟨"a", ⟨none, 1⟩⟩] ⟨"f", ⟨none, 1⟩⟩) imported
      = .ok (.function 0) imported := by
    have qualified : imported.store.qualifiedValue 0 [⟨"a", ⟨none, 1⟩⟩] ⟨"f", ⟨none, 1⟩⟩
        = .ok (.function 0) := by
      simp only [Store.qualifiedValue, Store.spaceOf, space, function]
    rw [evaluate, lookupQualified, bind_ok (show (get : EvalM Machine) imported = .ok imported imported from rfl),
      show imported.scope = 0 from rfl, qualified]
    rfl
  -- the import comes to its end before the function is called
  have begins : ((Session.new setup Host.lateImport).after []).Begins
      "import \"lib/a\" as a; a::f();" none
      (.expression (.call (.qualified [⟨"a", ⟨none, 1⟩⟩] ⟨"f", ⟨none, 1⟩⟩) ⟨none, 1⟩ [])) imported :=
    ⟨_, script, .later ran trivial .first⟩
  -- from the call into the body of the function, where the second import stands
  have trail : Trail setup (.top setup (.expression (.call (.qualified [⟨"a", ⟨none, 1⟩⟩]
      ⟨"f", ⟨none, 1⟩⟩) ⟨none, 1⟩ [])) imported) [.part, .call ⟨"f", ⟨none, 1⟩⟩, .body, .part]
      ⟨996, .load "b" place none, _⟩ :=
    .step (.call callee rfl) (.step (.dispatch rfl) (.step (.body rfl rfl rfl rfl .first)
      (.step .load .here)))
  have seen := (Session.imports_seen_from_innermost setup Host.lateImport rfl [] _ _ _ _ begins _ _ _ _ _ _
    trail).1
  have root : Module.seat Host.lateImport.site none = [] := by
    decide
  have away : Module.seat Host.lateImport.site none ≠ ["lib", "a.tah"].dropLast := by
    decide
  exact ⟨_, _, _, _, _, begins, trail, rfl, seen.trans root, fun same => away (seen.symm.trans same)⟩

end ContractScript
