/-
A reader of settings files. A file holds at most one document in version 1.1 of
YAML; its nodes are turned into plain data. A node can be well formed and still
not be what it is marked as; of several such nodes the one nearest to the root is
reported, and of those the first.
-/
import ContractScript.Settings.Document.Node
import ContractScript.Settings.Load

set_option autoImplicit false

namespace ContractScript.Document

/-- Whether a node can be a key. -/
def Node.isKey : Node → Bool
  | .scalar _ _ => true
  | _ => false

/-- The fault of a node, whatever it contains. -/
def Node.fault? : Node → Option Fault
  | .scalar tag text =>
    match datumOf tag text with
    | .ok _ => none
    | .error .unlike => some .malformed
    | .error f => some (.word f)
  | .list tag _ => if tag == .list then none else some .malformed
  | .map tag _ => if tag == .map then none else some .malformed

/-- The first fault among the nodes that lie a number of levels below a node. -/
def Node.faultBelow? : Nat → Node → Option Fault
  | 0, node => node.fault?
  | _ + 1, .scalar _ _ => none
  | depth + 1, .list _ items => items.findSome? (faultBelow? depth)
  | depth + 1, .map _ entries =>
    entries.findSome? fun entry =>
      let ofKey := if entry.1.isKey then faultBelow? depth entry.1 else some .malformed
      ofKey.or (faultBelow? depth entry.2)

mutual

/-- The number of levels below a node. -/
def Node.depth : Node → Nat
  | .scalar _ _ => 0
  | .list _ items => itemsDepth items
  | .map _ entries => entriesDepth entries

/-- The number of levels of a list of nodes. -/
def itemsDepth : List Node → Nat
  | [] => 0
  | item :: rest => max (item.depth + 1) (itemsDepth rest)

/-- The number of levels of entries. -/
def entriesDepth : List (Node × Node) → Nat
  | [] => 0
  | (key, value) :: rest => max (max key.depth value.depth + 1) (entriesDepth rest)

end

/-- The first fault in a node, level by level. -/
def Node.firstFault? (node : Node) : Option Fault :=
  (List.range (node.depth + 1)).findSome? fun level => node.faultBelow? level

/-- Whether two keys of a map are the same. Truth values are the numbers one and
zero here. -/
def isSameKey (k k' : Datum) : Bool :=
  match wholeOf k, wholeOf k' with
  | some n, some n' => n == n'
  | none, none =>
    match k, k' with
    | .null, .null => true
    | .num x, .num y => x == y
    | .text t, .text u | .date t, .date u | .moment t, .moment u => t == u
    | _, _ => false
  | _, _ => false
where
  /-- The integer that a key is equal to. -/
  wholeOf : Datum → Option Int
    | .bool b => some (if b then 1 else 0)
    | .int n => some n
    | .num x =>
      if Number.isNaN x || Number.isInfinite x then none
      else
        let n := Number.truncate x
        if Number.ofInt n == x then some n else none
    | _ => none

/-- Writes an entry of a map: in the place of the one with its key, or behind the
others. The key stays as it was written first. -/
def writeEntry (key value : Datum) : List (Datum × Datum) → List (Datum × Datum)
  | [] => [(key, value)]
  | (k, v) :: rest =>
    if isSameKey k key then (k, value) :: rest else (k, v) :: writeEntry key value rest

mutual

/-- The data that a node without faults stands for. -/
def Node.datum : Node → Datum
  | .scalar tag text =>
    match datumOf tag text with
    | .ok datum => datum
    | .error _ => .null
  | .list _ items => .list (itemData items)
  | .map _ entries =>
    .map ((entryData entries).foldl (fun written entry => writeEntry entry.1 entry.2 written) [])

/-- The data of the items of a list. -/
def itemData : List Node → List Datum
  | [] => []
  | item :: rest => item.datum :: itemData rest

/-- The data of the entries of a map. -/
def entryData : List (Node × Node) → List (Datum × Datum)
  | [] => []
  | (key, value) :: rest => (key.datum, value.datum) :: entryData rest

end

/-- Reads a document. A file without a document holds nothing. -/
def parse (cs : List Char) : Except Fault Datum :=
  match scan cs with
  | .error .malformed => .error .malformed
  | .error f => .error (.scalar f)
  | .ok symbols =>
    match nodeOf symbols with
    | .error fault => .error fault
    | .ok none => .ok .null
    | .ok (some node) =>
      match node.firstFault? with
      | some fault => .error fault
      | none => .ok node.datum

/-- What is said of a document that is not well formed. -/
def complaint : String := "<yaml error>"

/-- Why no data is made of a document with a fault. -/
def Fault.unread : Fault → Settings.Unread
  | .malformed | .scalar .malformed | .word .unlike => .malformed complaint
  | .scalar .noCharacter => .unfit "chr() arg not in range(0x110000)"
  | .word (.notInteger base text) => .unfit (Settings.notInteger base text)
  | .word (.tooManyDigits digits) => .unfit (Settings.tooManyDigits digits)
  | .word (.notNumber text) => .unfit (Settings.notNumber text)
  | .word (.noDate reason) => .unfit reason
  | .tooDeep => .failed "RecursionError" "maximum recursion depth exceeded"
  | .scalar .codeTooLarge => .failed "OverflowError" "Python int too large to convert to C int"
  | .word (.notFlag text) => .failed "KeyError" (Text.quoted text)
  | .word .empty => .failed "IndexError" "string index out of range"
  | .word .tooLarge => .failed "OverflowError" "int too large to convert to float"

/-- Reads the bytes of a settings file. -/
def read : Settings.Reader := fun bytes =>
  match Text.Utf8.decodeStream bytes with
  | .error m => .error (.unfit m.message)
  | .ok cs =>
    match parse (Text.unifyNewlines cs) with
    | .ok datum => .ok datum
    | .error fault => .error fault.unread

end ContractScript.Document
