/-
A tree of files. A path is followed step by step from the root or from the
current directory, and opening it for reading or writing is refused for the
reasons that a file system gives.
-/
import ContractScript.OrderedMap
import ContractScript.Path
import ContractScript.Text.Lines
import ContractScript.Text.Utf8

set_option autoImplicit false

namespace ContractScript

/-- What a path can lead to. -/
inductive FileTree.Node where
  | directory
  | file (bytes : ByteArray)

/-- Nodes by their steps from the root. The root itself is always there. -/
structure FileTree where
  nodes : OrderedMap (List String) FileTree.Node

namespace FileTree

/-- Why a path cannot be opened. -/
inductive Refusal where
  | notFound
  | isDirectory
  | notDirectory
  | nameTooLong
deriving Repr, DecidableEq

/-- The wording of a refusal. -/
def Refusal.message : Refusal → String
  | .notFound => "No such file or directory"
  | .isDirectory => "Is a directory"
  | .notDirectory => "Not a directory"
  | .nameTooLong => "File name too long"

/-- A tree with only the root. -/
def empty : FileTree := ⟨.empty⟩

/-- The node at the end of some steps. -/
def node? (t : FileTree) (steps : List String) : Option Node :=
  if steps.isEmpty then some .directory else t.nodes.get? steps

/-- Puts a node into the tree, and directories above it where there is nothing. -/
def insert (t : FileTree) (steps : List String) (n : Node) : FileTree :=
  let above := (List.range steps.length).map fun k => steps.take k
  let withAbove := above.foldl
    (fun tree dir => if (tree.node? dir).isSome then tree else ⟨tree.nodes.insert dir .directory⟩) t
  ⟨withAbove.nodes.insert steps n⟩

/-- The greatest size of a step in bytes. -/
def maxStep : Nat := 255

/-- The greatest size of a path in bytes. -/
def maxPath : Nat := 4095

/-- Where a path leads: to a directory, to a file, or to a place in a directory
where nothing is. The place remembers whether a slash followed its name. -/
inductive Spot where
  | directory (steps : List String)
  | file (steps : List String) (bytes : ByteArray)
  | vacant (steps : List String) (slash : Bool)

/-- Follows steps from a directory. -/
def follow (t : FileTree) (here : List String) : List String → Except Refusal Spot
  | [] => .ok (.directory here)
  | step :: rest =>
    if step == "" || step == "." then follow t here rest
    else if step == ".." then follow t here.dropLast rest
    else if maxStep < step.utf8ByteSize then .error .nameTooLong
    else
      let next := here ++ [step]
      match t.node? next with
      | some .directory => follow t next rest
      | some (.file bytes) => if rest.isEmpty then .ok (.file next bytes) else .error .notDirectory
      | none =>
        if rest.all (· == "") then .ok (.vacant next (!rest.isEmpty)) else .error .notFound

/-- The steps of a path as texts. -/
def stepsOf (path : String) : List String :=
  (Path.steps path.toList).map String.ofList

/-- Where a path leads, seen from a current directory. -/
def locate (t : FileTree) (current path : String) : Except Refusal Spot :=
  if maxPath < path.utf8ByteSize then .error .nameTooLong
  else if path.isEmpty then .error .notFound
  else t.follow [] (stepsOf (Path.within current path))

/-- Whether a path contains a null character, which no file system accepts. -/
def hasNull (path : String) : Bool :=
  path.toList.contains '\x00'

/-- Whether a path leads to a file. -/
def isFile (t : FileTree) (current path : String) : Bool :=
  if hasNull path then false
  else
    match t.locate current path with
    | .ok (.file _ _) => true
    | _ => false

/-- Why a file cannot be read or written. -/
inductive Problem where
  | refused (reason : Refusal)
  | nullByte
  | undecodable (m : Text.Utf8.Malformed)
deriving DecidableEq

/-- The bytes of a file. -/
def readBytes (t : FileTree) (current path : String) : Except Problem ByteArray :=
  if hasNull path then .error .nullByte
  else
    match t.locate current path with
    | .ok (.file _ bytes) => .ok bytes
    | .ok (.directory _) => .error (.refused .isDirectory)
    | .ok (.vacant _ _) => .error (.refused .notFound)
    | .error reason => .error (.refused reason)

/-- The text of a file, with every line ending as a line feed. -/
def readText (t : FileTree) (current path : String) : Except Problem String :=
  match t.readBytes current path with
  | .error problem => .error problem
  | .ok bytes =>
    match Text.Utf8.decode bytes with
    | .error m => .error (.undecodable m)
    | .ok cs => .ok (String.ofList (Text.unifyNewlines cs))

/-- Replaces the content of a file, or makes the file. -/
def writeText (t : FileTree) (current path content : String) : Except Problem FileTree :=
  if hasNull path then .error .nullByte
  else
    let bytes := Text.Utf8.encode content
    match t.locate current path with
    | .ok (.file steps _) => .ok (t.insert steps (.file bytes))
    | .ok (.directory _) => .error (.refused .isDirectory)
    | .ok (.vacant steps slash) =>
      if slash then .error (.refused .isDirectory) else .ok (t.insert steps (.file bytes))
    | .error reason => .error (.refused reason)

/-- The files of the tree with their steps. -/
def files (t : FileTree) : List (List String × ByteArray) :=
  t.nodes.entries.filterMap fun e =>
    match e.2 with
    | .file bytes => some (e.1, bytes)
    | .directory => none

end FileTree

end ContractScript
