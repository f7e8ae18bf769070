/-
The symbols of a document: texts, marks, and the starts and ends of blocks,
which are told from the indentation.

Whether a text is the key of an entry is known only when the colon after it is
found, so the place where a key may have started is remembered, for every level
of brackets, and the symbol that announces the key is put in there later. A key
lies in one line and has a limited length.
-/
import ContractScript.Settings.Document.Scalar
import ContractScript.Text.Utf8

set_option autoImplicit false

namespace ContractScript.Document

/-- The symbols of a document. -/
inductive Symbol where
  /-- A directive that names the version of the format. -/
  | version (major : Nat)
  /-- A directive that names the start of tags with a handle. -/
  | tagStart (handle start : String)
  /-- Any other directive. -/
  | directive
  | documentStart
  | documentEnd
  | blockList
  | blockMap
  | blockEnd
  | listOpen
  | listClose
  | mapOpen
  | mapClose
  | comma
  | dash
  | key
  | value
  | anchor (name : String)
  | reference (name : String)
  | tag (handle : Option String) (suffix : String)
  | scalar (isPlain : Bool) (text : String)
  /-- Nothing follows. -/
  | ending
deriving Repr, DecidableEq, Inhabited

/-! ## Names, tags and directives -/

/-- The name of an anchor, and what follows. -/
def name? (gs : List Glyph) : Option (String × List Glyph) :=
  let (name, rest) := span isNameChar gs
  let c := nextChar rest
  if name.isEmpty then none
  else if endsMark c || c ∈ ['?', ':', ',', ']', '\x7d', '%', '@', '\x60'] then
    some (String.ofList name, rest)
  else none

/-- Whether a character may stand in a tag. -/
def isTagChar (c : Char) : Bool :=
  c.isAlphanum || c ∈ ['-', ';', '/', '?', ':', '@', '&', '=', '+', '$', ',', '_', '.', '!', '~',
    '*', '\'', '(', ')', '[', ']', '%']

/-- The bytes of the characters of a tag, where a percent sign and two digits
stand for one byte. -/
def tagBytes : List Char → Option (List UInt8)
  | [] => some []
  | '%' :: a :: b :: rest =>
    match naturalIn? 16 [a, b], tagBytes rest with
    | some n, some bytes => some (n.toUInt8 :: bytes)
    | _, _ => none
  | c :: rest => if c == '%' then none else (tagBytes rest).map (c.toNat.toUInt8 :: ·)

/-- The text of a tag, and what follows. -/
def tagText? (gs : List Glyph) : Option (String × List Glyph) :=
  let (cs, rest) := span isTagChar gs
  if cs.isEmpty then none
  else
    match (tagBytes cs).map (Text.Utf8.decodeFrom 0) with
    | some (.ok text) => some (String.ofList text, rest)
    | _ => none

/-- The handle of a tag, and what follows: an exclamation mark alone before a
space, else a name between two of them. -/
def handle? (gs : List Glyph) : Option (String × List Glyph) :=
  if nextChar gs != '!' then none
  else if nextChar (gs.drop 1) == ' ' then some ("!", gs.drop 1)
  else
    let (name, rest) := span isNameChar (gs.drop 1)
    if nextChar rest == '!' then some (String.ofList ('!' :: name ++ ['!']), rest.drop 1) else none

/-- A tag, and what follows. -/
def tag? (gs : List Glyph) : Option (Symbol × List Glyph) := do
  let after := gs.drop 1
  let c := nextChar after
  let (tag, rest) ←
    if c == '<' then do
      let (text, rest) ← tagText? (after.drop 1)
      if nextChar rest == '>' then some (Symbol.tag none text, rest.drop 1) else none
    else if endsMark c then some (Symbol.tag none "!", after)
    else if (span (fun c => !endsWord c) after).1.contains '!' then do
      let (handle, rest) ← handle? gs
      let (text, rest) ← tagText? rest
      some (Symbol.tag (some handle) text, rest)
    else do
      let (text, rest) ← tagText? after
      some (Symbol.tag (some "!") text, rest)
  if endsWord (nextChar rest) then some (tag, rest) else none

/-- The version in a directive, and what follows. -/
def version? (gs : List Glyph) : Option (Symbol × List Glyph) := do
  let (major, rest) := span Char.isDigit (dropSpaces gs)
  let size ← naturalIn? 10 major
  let (minor, after) := span Char.isDigit (rest.drop 1)
  if nextChar rest == '.' && !minor.isEmpty && endsWord (nextChar after) then
    some (.version size, after)
  else none

/-- The handle and the start of tags in a directive, and what follows. -/
def tagStart? (gs : List Glyph) : Option (Symbol × List Glyph) := do
  let (handle, rest) ← handle? (dropSpaces gs)
  let (start, after) ← tagText? (dropSpaces rest)
  if nextChar rest == ' ' && endsWord (nextChar after) then some (.tagStart handle start, after)
  else none

/-- A directive, and what follows its line. -/
def directive? (gs : List Glyph) : Option (Symbol × List Glyph) := do
  let (name, rest) := span isNameChar (gs.drop 1)
  if name.isEmpty || !endsWord (nextChar rest) then none
  else
    let (symbol, after) ← match String.ofList name with
      | "YAML" => version? rest
      | "TAG" => tagStart? rest
      | _ => some (Symbol.directive, rest.dropWhile fun g => !endsLine g.char)
    (restOfLine? after).map fun next => (symbol, next)

/-! ## Scanning -/

/-- Where a key may have started: how many symbols stood before it, its place,
and whether its indentation demands a key. -/
structure KeyStart where
  number : Nat
  glyph : Glyph
  required : Bool
deriving Repr, DecidableEq

/-- What has been scanned. -/
structure Scan where
  /-- The number of glyphs of the document, which bounds the length of a text. -/
  size : Nat
  /-- The symbols so far, backwards. -/
  symbols : List Symbol := []
  /-- The number of symbols so far. -/
  count : Nat := 0
  /-- The columns of the open blocks, the innermost first. -/
  indents : List Nat := []
  /-- Where a key may have started, for every level of brackets, the innermost
  first. The last one is for the level outside all brackets. -/
  keys : List (Option KeyStart) := [none]
  /-- Whether a key may start here. -/
  keyAllowed : Bool := true
deriving Repr, Inhabited

namespace Scan

/-- The greatest length of a key. -/
def maxKey : Nat := 1024

/-- Whether brackets are open. -/
def inFlow (s : Scan) : Bool :=
  decide (1 < s.keys.length)

/-- The least column of what belongs to the innermost block. -/
def inner (s : Scan) : Nat :=
  match s.indents with
  | column :: _ => column + 1
  | [] => 0

/-- Adds a symbol. -/
def push (s : Scan) (symbol : Symbol) : Scan :=
  { s with symbols := symbol :: s.symbols, count := s.count + 1 }

/-- Puts a symbol in after the first `number` ones. -/
def insertAt (s : Scan) (number : Nat) (symbol : Symbol) : Scan :=
  let later := s.count - number
  { s with
    symbols := s.symbols.take later ++ symbol :: s.symbols.drop later
    count := s.count + 1 }

/-- Ends the blocks whose columns satisfy a test, unless brackets are open. -/
def endBlocks (s : Scan) (ends : Nat → Bool) : Scan :=
  if s.inFlow then s
  else
    let ended := s.indents.takeWhile ends
    ended.foldl (fun s _ => s.push .blockEnd) { s with indents := s.indents.dropWhile ends }

/-- Whether a block that starts in a column is a new one. -/
def isDeeper (s : Scan) (column : Nat) : Bool :=
  match s.indents with
  | [] => true
  | innermost :: _ => decide (innermost < column)

/-- Opens a block in a column. -/
def openBlock (s : Scan) (column : Nat) : Scan :=
  { s with indents := column :: s.indents }

/-- Whether a place demands a key. -/
def isDemanded (start : Option KeyStart) : Bool :=
  (start.map KeyStart.required).getD false

/-- Forgets where a key of the current level may have started; `none` if a key
is demanded there. -/
def forgetKey (s : Scan) : Option Scan :=
  match s.keys with
  | start :: outer => if isDemanded start then none else some { s with keys := none :: outer }
  | [] => some s

/-- Whether a key that starts in a place cannot reach as far as here. -/
def isStale (here : Glyph) (start : Option KeyStart) : Bool :=
  match start with
  | some k => k.glyph.line != here.line || maxKey < here.index - k.glyph.index
  | none => false

/-- Forgets the places that are too far back for a key; `none` if a key is
demanded in one of them. -/
def forgetStale (s : Scan) (here : Glyph) : Option Scan :=
  if s.keys.any fun start => isStale here start && isDemanded start then none
  else some { s with keys := s.keys.map fun start => if isStale here start then none else start }

/-- Remembers that a key may start here. -/
def rememberKey (s : Scan) (here : Glyph) : Option Scan :=
  if s.keyAllowed then do
    let s ← s.forgetKey
    let start : KeyStart := ⟨s.count, here, !s.inFlow && s.indents.head? == some here.column⟩
    return { s with keys := some start :: s.keys.drop 1 }
  else some s

/-- Adds a symbol that may be a key, or its first part. -/
def pushKeyPart (s : Scan) (here : Glyph) (symbol : Symbol) : Option Scan := do
  let s ← s.rememberKey here
  return { s.push symbol with keyAllowed := false }

/-- A bracket opens. -/
def pushOpen (s : Scan) (here : Glyph) (symbol : Symbol) : Option Scan := do
  let s ← s.rememberKey here
  return { s.push symbol with keys := none :: s.keys, keyAllowed := true }

/-- A bracket closes. -/
def pushClose (s : Scan) (symbol : Symbol) : Option Scan := do
  if s.inFlow then
    let s ← s.forgetKey
    return { s.push symbol with keys := s.keys.drop 1, keyAllowed := false }
  else none

/-- A comma between brackets. -/
def pushComma (s : Scan) : Option Scan := do
  let s ← s.forgetKey
  return { s.push .comma with keyAllowed := true }

/-- Opens a block in a column if it is a new one. Outside brackets this is
allowed only where a key is. -/
def enterBlock (s : Scan) (here : Glyph) (start : Symbol) : Option Scan :=
  if s.inFlow then some s
  else if !s.keyAllowed then none
  else if s.isDeeper here.column then some ((s.openBlock here.column).push start)
  else some s

/-- A dash in front of an item. -/
def pushDash (s : Scan) (here : Glyph) : Option Scan := do
  let s ← s.enterBlock here .blockList
  let s ← s.forgetKey
  return { s.push .dash with keyAllowed := true }

/-- A question mark in front of a key. -/
def pushKey (s : Scan) (here : Glyph) : Option Scan := do
  let s ← s.enterBlock here .blockMap
  let s ← s.forgetKey
  return { s.push .key with keyAllowed := !s.inFlow }

/-- A colon in front of a value. If a key may have started in this line, it did
so. -/
def pushValue (s : Scan) (here : Glyph) : Option Scan :=
  match s.keys with
  | some start :: outer =>
    let announced := { s.insertAt start.number .key with keys := none :: outer }
    let opened :=
      if !s.inFlow && s.isDeeper start.glyph.column then
        (announced.openBlock start.glyph.column).insertAt start.number .blockMap
      else announced
    some { opened.push .value with keyAllowed := false }
  | _ => do
    let s ← s.enterBlock here .blockMap
    let s ← s.forgetKey
    return { s.push .value with keyAllowed := !s.inFlow }

/-- A directive or a mark between documents. -/
def pushBetween (s : Scan) (symbol : Symbol) : Option Scan := do
  let s ← (s.endBlocks fun _ => true).forgetKey
  return { s.push symbol with keyAllowed := false }

/-- Why a document cannot be scanned. -/
def orMalformed {α : Type} (found : Option α) : Except ScalarFault α :=
  match found with
  | some a => .ok a
  | none => .error .malformed

/-- Scans a text between quotes. -/
def quoted (s : Scan) (here : Glyph) (gs : List Glyph) : Except ScalarFault (Scan × List Glyph) := do
  let (text, rest) ← Document.quoted (here.char == '"') s.size (gs.drop 1)
  let s ← orMalformed (s.pushKeyPart here (.scalar false (String.ofList text)))
  return (s, rest)

/-- Scans a plain text. -/
def plain (s : Scan) (here : Glyph) (gs : List Glyph) : Option (Scan × List Glyph) := do
  let (text, rest, broke) := Document.plain s.inFlow s.inner s.size gs
  let s ← s.pushKeyPart here (.scalar true (String.ofList text))
  return ({ s with keyAllowed := broke }, rest)

/-- Scans a block. -/
def block (s : Scan) (isFolded : Bool) (gs : List Glyph) : Option (Scan × List Glyph) := do
  let s ← s.forgetKey
  let (header, start) ← blockHeader? isFolded (gs.drop 1)
  let (text, rest) := Document.block header (max s.inner 1) s.size start
  return ({ s.push (.scalar false (String.ofList text)) with keyAllowed := true }, rest)

/-- Scans a mark that is no text; `none` if none can stand here. -/
def mark (s : Scan) (here : Glyph) (gs : List Glyph) : Option (Scan × List Glyph) :=
  let rest := gs.drop 1
  let alone := s.inFlow || endsMark (nextChar rest)
  let thenRest (s : Option Scan) : Option (Scan × List Glyph) := s.map fun s => (s, rest)
  match here.char with
  | '[' => thenRest (s.pushOpen here .listOpen)
  | '\x7b' => thenRest (s.pushOpen here .mapOpen)
  | ']' => thenRest (s.pushClose .listClose)
  | '\x7d' => thenRest (s.pushClose .mapClose)
  | ',' => thenRest s.pushComma
  | '-' => thenRest (s.pushDash here)
  | '?' => if alone then thenRest (s.pushKey here) else none
  | ':' => if alone then thenRest (s.pushValue here) else none
  | '*' => do
    let (name, rest) ← name? rest
    return (← s.pushKeyPart here (.reference name), rest)
  | '&' => do
    let (name, rest) ← name? rest
    return (← s.pushKeyPart here (.anchor name), rest)
  | '!' => do
    let (tag, rest) ← tag? gs
    return (← s.pushKeyPart here tag, rest)
  | '|' => s.block false gs
  | '>' => s.block true gs
  | _ => none

/-- Scans the symbol that stands here. -/
def symbol (s : Scan) (here : Glyph) (gs : List Glyph) : Except ScalarFault (Scan × List Glyph) :=
  if here.column == 0 && here.char == '%' then
    orMalformed do
      let (symbol, rest) ← directive? gs
      return (← s.pushBetween symbol, rest)
  else if here.column == 0 && atMarker gs then
    let symbol := if here.char == '-' then Symbol.documentStart else .documentEnd
    orMalformed ((s.pushBetween symbol).map fun s => (s, gs.drop 3))
  else if here.char == '\'' || here.char == '"' then s.quoted here gs
  else if startsPlain s.inFlow here.char (nextChar (gs.drop 1)) then orMalformed (s.plain here gs)
  else if s.inFlow && (here.char == '|' || here.char == '>') then .error .malformed
  else orMalformed (s.mark here gs)

/-- Scans all symbols. Every round takes at least one glyph. -/
def rounds : Nat → Scan → List Glyph → Except ScalarFault Scan
  | 0, _, _ => .error .malformed
  | fuel + 1, s, gs => do
    let (gs, broke) := skipBlanks false false gs
    let s := if broke && !s.inFlow then { s with keyAllowed := true } else s
    let here := next gs
    let s ← orMalformed (s.forgetStale here)
    if here.char == endChar then orMalformed (s.endBlocks fun _ => true).forgetKey
    else
      let (s, rest) ← (s.endBlocks fun column => decide (here.column < column)).symbol here gs
      rounds fuel s rest

end Scan

/-- The symbols of a document. -/
def scan (cs : List Char) : Except ScalarFault (List Symbol) :=
  if cs.all isPrintable then
    let gs := glyphs cs
    (Scan.rounds (gs.length + 1) { size := gs.length } gs).map fun s => s.symbols.reverse
  else .error .malformed

end ContractScript.Document
