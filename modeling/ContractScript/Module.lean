/-
Finding modules. An import names a module by a path; loaders are asked in turn,
and the first that claims the path decides. Paths under `larder/` belong to the
bundled modules, all others are files, seen from the directory of the file that
imports them.
-/
import ContractScript.FileTree
import ContractScript.Larder

set_option autoImplicit false

namespace ContractScript

/-- The text of a module, the name by which it is recognised, and the directory
that its own imports are relative to. -/
structure ModuleSource where
  source : String
  name : String
  directory : Option String
deriving Repr, DecidableEq

namespace Module

/-- A refusal by the system: its number, if it has one, and its text. -/
structure SystemError where
  code : Option Int
  text : String
deriving Repr, DecidableEq

/-- The reason of a refusal: its text, or its number if it has no text. -/
def SystemError.reason (e : SystemError) : String :=
  match e.code with
  | none => e.text
  | some code => if e.text.isEmpty then "[Errno " ++ toString code ++ "] " else e.text

/-- Where modules come from. -/
inductive Loader where
  | larder
  | files
  /-- Refuses certain paths. -/
  | deny (paths : List (String × SystemError))
deriving Repr

/-- What a loader needs to know: the files, the current directory, and the
home directory. -/
structure Site where
  files : FileTree
  current : String
  home : String

/-- Why loading failed. -/
inductive LoadError where
  | refused (e : SystemError)
  /-- A user's name has a null character. -/
  | nullByte
  | undecodable (m : Text.Utf8.Malformed)
deriving Repr

/-- What bundled modules start with. -/
def larderRoot : String := "larder/"

/-- What module files end with. -/
def suffix : String := ".tah"

/-- The text after a given start. -/
def dropStart? (start text : String) : Option String :=
  if start.toList.isPrefixOf text.toList then
    some (String.ofList (text.toList.drop start.length))
  else none

/-- Whether a text has the given end. -/
def hasEnd (ending text : String) : Bool :=
  ending.toList.isSuffixOf text.toList

/-- The text without a given end. -/
def dropEnd (ending text : String) : String :=
  if hasEnd ending text then String.ofList (text.toList.take (text.length - ending.length))
  else text

/-- Whether a loader claims a path. -/
def Loader.claims (path : String) : Loader → Bool
  | .larder => (dropStart? larderRoot path).isSome
  | .files => true
  | .deny paths => paths.any fun entry => entry.1 == path

/-- The refusal of a name that no file can have. -/
def nameTooLong : SystemError := ⟨some 36, FileTree.Refusal.nameTooLong.message⟩

/-- A bundled module. Its name has no slash and does not start with a point, and
is refused if it is longer than the name of a file may be. -/
def fromLarder (path : String) : Except LoadError (Option ModuleSource) :=
  match (dropStart? larderRoot path).map (dropEnd suffix) with
  | none => .ok none
  | some name =>
    if name.isEmpty || name.toList.contains '/' || name.toList.head? == some '.' then .ok none
    else if FileTree.hasNull name then .ok none
    else if FileTree.maxStep < (name ++ suffix).utf8ByteSize then .error (.refused nameTooLong)
    else .ok ((Larder.source? name).map fun source => ⟨source, larderRoot ++ name, none⟩)

/-- The file that a path without a tilde means: itself, or with the usual end
added. -/
def filePath (site : Site) (base path : String) : String :=
  let plain := Path.normalize (Path.within base path)
  if !site.files.isFile site.current plain && !hasEnd suffix plain then plain ++ suffix else plain

/-- A module in a file. -/
def fromFiles (site : Site) (base : Option String) (path : String) :
    Except LoadError (Option ModuleSource) :=
  let start := match base with
    | some dir => if dir.isEmpty then site.current else dir
    | none => site.current
  match (Path.expandHome? site.home path).map (filePath site start) with
  | none => .error .nullByte
  | some full =>
    if site.files.isFile site.current full then
      match site.files.readText site.current full with
      | .ok source =>
        .ok (some ⟨source, Path.canonical (Path.within site.current full),
          some (Path.directory full)⟩)
      | .error (.undecodable m) => .error (.undecodable m)
      | .error _ => .ok none
    else .ok none

/-- Loads a path with a loader that claims it. -/
def Loader.load (site : Site) (base : Option String) (path : String) :
    Loader → Except LoadError (Option ModuleSource)
  | .larder => fromLarder path
  | .files => fromFiles site base path
  | .deny paths =>
    match paths.find? fun entry => entry.1 == path with
    | some entry => .error (.refused entry.2)
    | none => .ok none

/-- Loads a path with the first loader that claims it. -/
def load (loaders : List Loader) (site : Site) (base : Option String) (path : String) :
    Except LoadError (Option ModuleSource) :=
  match loaders.find? (Loader.claims path) with
  | some loader => loader.load site base path
  | none => .ok none

/-- The usual loaders. -/
def standard : List Loader := [.larder, .files]

end Module

end ContractScript
