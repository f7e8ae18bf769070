/-
Paths as texts. Normalising is purely textual: a step up removes the step
before it, whatever is on disk. A path that starts with exactly two slashes
keeps both; any other number of leading slashes counts as one.
-/

set_option autoImplicit false

namespace ContractScript.Path

/-- The steps of a path: what stands between its slashes. -/
def steps : List Char → List (List Char)
  | [] => [[]]
  | c :: rest =>
    if c == '/' then [] :: steps rest
    else
      match steps rest with
      | first :: more => (c :: first) :: more
      | [] => [[c]]

/-- Steps with slashes between them. -/
def join : List (List Char) → List Char
  | [] => []
  | [step] => step
  | step :: rest => step ++ '/' :: join rest

/-- The slashes that a path keeps in front: none, one or two. -/
def root : List Char → List Char
  | '/' :: '/' :: '/' :: _ => ['/']
  | '/' :: '/' :: _ => ['/', '/']
  | '/' :: _ => ['/']
  | _ => []

/-- Whether a path starts at the root. -/
def isAbsolute (path : List Char) : Bool :=
  path.head? == some '/'

/-- Whether a step goes nowhere. -/
def isIdle (step : List Char) : Bool :=
  step == [] || step == ['.']

/-- Adds a step to the steps before it, latest first. A step up undoes the step
before; at an absolute root it is dropped, and before a relative path it stays. -/
def climb (absolute : Bool) (before : List (List Char)) (step : List Char) : List (List Char) :=
  if isIdle step then before
  else if step != ['.', '.'] then step :: before
  else
    match before with
    | [] => if absolute then [] else [step]
    | last :: rest => if last == ['.', '.'] then step :: before else rest

/-- A path or a point, if it is empty. -/
def orPoint (path : List Char) : List Char :=
  if path.isEmpty then ['.'] else path

/-- The normal form of a path. -/
def normalizeChars (path : List Char) : List Char :=
  let before := (steps path).foldl (climb (isAbsolute path)) []
  orPoint (root path ++ join before.reverse)

/-- The normal form of a path. -/
def normalize (path : String) : String :=
  String.ofList (normalizeChars path.toList)

/-- A path seen from a base; an absolute path stands by itself. -/
def within (base path : String) : String :=
  if isAbsolute path.toList then path
  else if base.isEmpty || base.toList.getLast? == some '/' then base ++ path
  else base ++ "/" ++ path

/-- A path without its slashes at the end. -/
def dropSlashes (path : List Char) : List Char :=
  (path.reverse.dropWhile (· == '/')).reverse

/-- A path with the home directory in place of a leading tilde. The home of
another user is not known, so such a path stays as it is; `none` if the name of
that user has a null character, because nobody can be asked for it. -/
def expandHome? (home path : String) : Option String :=
  match path.toList with
  | '~' :: rest =>
    let user := rest.takeWhile (· != '/')
    if user.isEmpty then
      let full := dropSlashes home.toList ++ rest
      some (if full.isEmpty then "/" else String.ofList full)
    else if user.contains '\x00' then none
    else some path
  | _ => some path

/-- The directory part of a path. -/
def directory (path : String) : String :=
  let upToSlash := (path.toList.reverse.dropWhile (· != '/')).reverse
  if upToSlash.all (· == '/') then String.ofList upToSlash
  else String.ofList (dropSlashes upToSlash)

/-- The one spelling of an absolute path: normal, with a single slash in front. -/
def canonical (path : String) : String :=
  let cs := normalizeChars path.toList
  match cs with
  | '/' :: '/' :: rest => String.ofList ('/' :: rest)
  | _ => String.ofList cs

/-- A path as messages show it: no idle steps and no doubled slashes, but steps
up are kept. -/
def tidy (path : String) : String :=
  let cs := path.toList
  String.ofList (orPoint (root cs ++ join ((steps cs).filter fun step => !isIdle step)))

/-- The path one step shorter, for a tidy path. -/
def parent (path : String) : String :=
  let cs := path.toList
  let kept := ((steps cs).filter fun step => !isIdle step).dropLast
  String.ofList (orPoint (root cs ++ join kept))

end ContractScript.Path
