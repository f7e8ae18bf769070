/-
The nodes of a document: texts marked with what they stand for, lists and maps.
Nodes are read from symbols by recursive descent. A node can be given a name
and referred to later; a reference stands for the whole node.
-/
import ContractScript.Settings.Document.Symbol
import ContractScript.Settings.Document.Word

set_option autoImplicit false

namespace ContractScript.Document

/-- A node of a document. -/
inductive Node where
  | scalar (tag : Tag) (text : String)
  | list (tag : Tag) (items : List Node)
  | map (tag : Tag) (entries : List (Node × Node))
deriving Repr

/-- Why a document cannot be read. -/
inductive Fault where
  | malformed
  /-- A text between quotes has an impossible escape. -/
  | scalar (f : ScalarFault)
  /-- A text is not what it is marked as. -/
  | word (f : WordFault)
  /-- Lists and maps lie too deep in each other. -/
  | tooDeep
deriving Repr, DecidableEq

/-- The empty node. -/
def Node.empty : Node := .scalar .null ""

/-- The tag with a full name. -/
def Tag.ofName (name : String) : Tag :=
  match name with
  | "tag:yaml.org,2002:null" => .null
  | "tag:yaml.org,2002:bool" => .flag
  | "tag:yaml.org,2002:int" => .integer
  | "tag:yaml.org,2002:float" => .fraction
  | "tag:yaml.org,2002:timestamp" => .date
  | "tag:yaml.org,2002:str" => .text
  | "tag:yaml.org,2002:seq" => .list
  | "tag:yaml.org,2002:map" => .map
  | "tag:yaml.org,2002:merge" => .merge
  | "tag:yaml.org,2002:value" => .unnamed
  | _ => .unknown

/-- What is known while nodes are read: the symbols that follow, and the nodes
that have names. -/
structure Reading where
  rest : List Symbol
  named : List (String × Node)

/-- Reads nodes, or fails. -/
abbrev Reader := StateT Reading (Except Fault)

namespace Reader

/-- The starts of tags, by their handles. -/
abbrev Handles := List (String × String)

/-- The handles that every document has. -/
def standardHandles : Handles :=
  [("!", "!"), ("!!", "tag:yaml.org,2002:")]

/-- The greatest depth of lists and maps in each other. -/
def maxDepth : Nat := 480

/-- The next symbol. -/
def peek : Reader Symbol := do
  return (← get).rest.headD .ending

/-- Goes on after the next symbol. -/
def skip : Reader Unit :=
  modify fun r => { r with rest := r.rest.drop 1 }

/-- The document is malformed. -/
def malformed {α : Type} : Reader α :=
  throw .malformed

/-- Gives a node its name, if it has one. -/
def giveName (name : Option String) (node : Node) : Reader Node := do
  match name with
  | some name => modify fun r => { r with named := (name, node) :: r.named }
  | none => pure ()
  return node

/-- The node with a name. -/
def nodeNamed (name : String) : Reader Node := do
  match (← get).named.lookup name with
  | some node => return node
  | none => malformed

/-- The full name of a tag. -/
def fullName (handles : Handles) (handle : Option String) (suffix : String) : Reader String :=
  match handle with
  | none => return suffix
  | some handle =>
    match handles.lookup handle with
    | some start => return start ++ suffix
    | none => malformed

/-- Reads a tag, if one follows. -/
def readTag (handles : Handles) : Reader (Option String) := do
  match ← peek with
  | .tag handle suffix =>
    skip
    return some (← fullName handles handle suffix)
  | _ => return none

/-- Reads a name, if one follows. No two nodes have the same name. -/
def readName : Reader (Option String) := do
  match ← peek with
  | .anchor name =>
    skip
    if ((← get).named.lookup name).isSome then malformed else return some name
  | _ => return none

/-- Reads what stands in front of a node: a name and a tag, in any order. -/
def readMarks (handles : Handles) : Reader (Option String × Option String) := do
  match ← readName with
  | some name => return (some name, ← readTag handles)
  | none =>
    let tag ← readTag handles
    return (← readName, tag)

/-- What a text stands for: what its tag says, or what it looks like if it is
plain or has the tag that says so. -/
def scalarTag (tag : Option String) (isPlain : Bool) (text : String) : Tag :=
  match tag with
  | some "!" => look text
  | some name => .ofName name
  | none => if isPlain then look text else .text

/-- What a list or map stands for. -/
def collectionTag (tag : Option String) (usual : Tag) : Tag :=
  match tag with
  | some "!" => usual
  | some name => .ofName name
  | none => usual

/-- The entries that a map takes over from the value of a merging key. Later
ones of a list come first, so that earlier ones win. -/
def mergedEntries : Node → Except Fault (List (Node × Node))
  | .map _ entries => .ok entries
  | .list _ items =>
    items.reverse.foldlM
      (fun found item =>
        match item with
        | .map _ entries => .ok (found ++ entries)
        | _ => .error .malformed) []
  | .scalar _ _ => .error .malformed

/-- The entries of a map with those it takes over in front. The key of a value
without a name is a text. -/
def withMerged (entries : List (Node × Node)) : Except Fault (List (Node × Node)) := do
  let isMerge (entry : Node × Node) : Bool :=
    match entry.1 with
    | .scalar .merge _ => true
    | _ => false
  let merged ← (entries.filter isMerge).foldlM
    (fun found entry => (mergedEntries entry.2).map (found ++ ·)) []
  let own := (entries.filter fun entry => !isMerge entry).map fun entry =>
    match entry.1 with
    | .scalar .unnamed text => (Node.scalar .text text, entry.2)
    | _ => entry
  return merged ++ own

/-- A map node. -/
def mapNode (tag : Tag) (entries : List (Node × Node)) : Reader Node :=
  match withMerged entries with
  | .ok entries => return .map tag entries
  | .error fault => throw fault

/-- Whether a symbol ends the key or the value of an entry of a block. -/
def endsBlockEntry : Symbol → Bool
  | .key | .value | .blockEnd => true
  | _ => false

/-- Whether a symbol ends the value of an entry between brackets. -/
def endsFlowEntry : Symbol → Bool
  | .comma | .listClose | .mapClose => true
  | _ => false

mutual

/-- Reads a node. Blocks can be read only outside brackets, and a list whose
dashes are not indented only as a part of an entry. -/
def node (handles : Handles) (inBlock inEntry : Bool) (depth : Nat) : Nat → Reader Node
  | 0 => malformed
  | fuel + 1 => do
    match ← peek with
    | .reference name =>
      skip
      nodeNamed name
    | _ =>
      if maxDepth < depth then throw .tooDeep
      let (name, tag) ← readMarks handles
      let asList : Tag := collectionTag tag .list
      let asMap : Tag := collectionTag tag .map
      match ← peek, inBlock, inEntry with
      | .dash, _, true =>
        discard (giveName name (.list asList []))
        giveName name (.list asList (← entryItems handles depth fuel []))
      | .scalar isPlain text, _, _ =>
        skip
        giveName name (.scalar (scalarTag tag isPlain text) text)
      | .listOpen, _, _ =>
        skip
        discard (giveName name (.list asList []))
        giveName name (.list asList (← flowItems handles depth fuel true []))
      | .mapOpen, _, _ =>
        skip
        discard (giveName name (.map asMap []))
        giveName name (← mapNode asMap (← flowEntries handles depth fuel true []))
      | .blockList, true, _ =>
        skip
        discard (giveName name (.list asList []))
        giveName name (.list asList (← blockItems handles depth fuel []))
      | .blockMap, true, _ =>
        skip
        discard (giveName name (.map asMap []))
        giveName name (← mapNode asMap (← blockEntries handles depth fuel []))
      | _, _, _ =>
        if name.isSome || tag.isSome then giveName name (.scalar (scalarTag tag true "") "")
        else malformed
termination_by structural x => x

/-- Reads the items of a list in a block; those read so far are backwards. -/
def blockItems (handles : Handles) (depth : Nat) : Nat → List Node → Reader (List Node)
  | 0, _ => malformed
  | fuel + 1, items => do
    match ← peek with
    | .dash =>
      skip
      let item ← match ← peek with
        | .dash => pure Node.empty
        | .blockEnd => pure Node.empty
        | _ => node handles true false (depth + 1) fuel
      blockItems handles depth fuel (item :: items)
    | .blockEnd =>
      skip
      return items.reverse
    | _ => malformed
termination_by structural x _ => x

/-- Reads the items of a list that is not indented; those read so far are
backwards. -/
def entryItems (handles : Handles) (depth : Nat) : Nat → List Node → Reader (List Node)
  | 0, _ => malformed
  | fuel + 1, items => do
    match ← peek with
    | .dash =>
      skip
      let follows ← peek
      let item ←
        if follows == .dash || endsBlockEntry follows then pure Node.empty
        else node handles true false (depth + 1) fuel
      entryItems handles depth fuel (item :: items)
    | _ => return items.reverse
termination_by structural x _ => x

/-- Reads the entries of a map in a block; those read so far are backwards. -/
def blockEntries (handles : Handles) (depth : Nat) : Nat → List (Node × Node) → Reader (List (Node × Node))
  | 0, _ => malformed
  | fuel + 1, entries => do
    match ← peek with
    | .key =>
      skip
      let key ←
        if endsBlockEntry (← peek) then pure Node.empty
        else node handles true true (depth + 1) fuel
      let value ← match ← peek with
        | .value => do
          skip
          if endsBlockEntry (← peek) then pure Node.empty
          else node handles true true (depth + 1) fuel
        | _ => pure Node.empty
      blockEntries handles depth fuel ((key, value) :: entries)
    | .blockEnd =>
      skip
      return entries.reverse
    | _ => malformed
termination_by structural x _ => x

/-- Reads the key and the value of an entry between brackets, after its mark. -/
def flowEntry (handles : Handles) (depth : Nat) : Nat → Reader (Node × Node)
  | 0 => malformed
  | fuel + 1 => do
    let follows ← peek
    let key ←
      if follows == .value || endsFlowEntry follows then pure Node.empty
      else node handles false false (depth + 1) fuel
    match ← peek with
    | .value =>
      skip
      if endsFlowEntry (← peek) then return (key, Node.empty)
      else return (key, ← node handles false false (depth + 1) fuel)
    | _ => return (key, Node.empty)
termination_by structural x => x

/-- Reads the items of a list between brackets; those read so far are backwards.
An entry among them stands for a map of its own. -/
def flowItems (handles : Handles) (depth : Nat) : Nat → Bool → List Node → Reader (List Node)
  | 0, _, _ => malformed
  | fuel + 1, isFirst, items => do
    if (← peek) == .listClose then
      skip
      return items.reverse
    if !isFirst then
      if (← peek) == .comma then skip else malformed
    match ← peek with
    | .key =>
      skip
      let entry ← flowEntry handles (depth + 1) fuel
      flowItems handles depth fuel false ((← mapNode .map [entry]) :: items)
    | .listClose =>
      skip
      return items.reverse
    | _ => flowItems handles depth fuel false ((← node handles false false (depth + 1) fuel) :: items)
termination_by structural x _ _ => x

/-- Reads the entries of a map between braces; those read so far are backwards.
A node alone is a key. -/
def flowEntries (handles : Handles) (depth : Nat) : Nat → Bool → List (Node × Node) → Reader (List (Node × Node))
  | 0, _, _ => malformed
  | fuel + 1, isFirst, entries => do
    if (← peek) == .mapClose then
      skip
      return entries.reverse
    if !isFirst then
      if (← peek) == .comma then skip else malformed
    match ← peek with
    | .key =>
      skip
      let entry ← flowEntry handles depth fuel
      flowEntries handles depth fuel false (entry :: entries)
    | .mapClose =>
      skip
      return entries.reverse
    | _ =>
      let key ← node handles false false (depth + 1) fuel
      flowEntries handles depth fuel false ((key, Node.empty) :: entries)
termination_by structural x _ _ => x

end

/-- Reads directives: the handles of a document, and whether its version is
known. -/
def directives : Nat → Bool → Handles → Reader Handles
  | 0, _, _ => malformed
  | fuel + 1, versionSeen, handles => do
    match ← peek with
    | .version major =>
      skip
      if versionSeen || major != 1 then malformed else directives fuel true handles
    | .tagStart handle start =>
      skip
      if (handles.lookup handle).isSome then malformed
      else directives fuel versionSeen ((handle, start) :: handles)
    | .directive =>
      skip
      directives fuel versionSeen handles
    | _ => return handles ++ standardHandles

/-- Goes on after marks of the end of a document. -/
def skipEnds : Nat → Reader Unit
  | 0 => malformed
  | fuel + 1 => do
    match ← peek with
    | .documentEnd =>
      skip
      skipEnds fuel
    | _ => return ()

/-- Whether a symbol stands between documents. -/
def isBetween : Symbol → Bool
  | .version _ | .tagStart _ _ | .directive | .documentStart | .documentEnd | .ending => true
  | _ => false

/-- Reads the only document of a file; `none` if there is none. -/
def document (fuel : Nat) : Reader (Option Node) := do
  let first ← peek
  if first == .ending then return none
  let content ←
    if isBetween first && first != .documentEnd then do
      let handles ← directives fuel false []
      if (← peek) == .documentStart then skip else malformed
      if isBetween (← peek) then pure Node.empty else node handles true false 0 fuel
    else node standardHandles true false 0 fuel
  skipEnds fuel
  if (← peek) == .ending then return some content else malformed

end Reader

/-- The node of a document; `none` if there is none. -/
def nodeOf (symbols : List Symbol) : Except Fault (Option Node) :=
  ((Reader.document (2 * symbols.length + 4)).run ⟨symbols, []⟩).map Prod.fst

end ContractScript.Document
