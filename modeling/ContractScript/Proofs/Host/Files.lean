/-
Files keep what is written to them.

A path is followed step by step, and it may go through any directories before it ends at a file or
at a place where a file can be made. That place is the target of the path. Writing puts bytes there
and leaves every other node alone; in particular no directory goes, so a path that had a target still
leads to it. A file that was written and not written again is therefore found by the same path with
the same bytes, whatever else has been written since.
-/
import ContractScript.Proofs.Module.Naming
import ContractScript.Proofs.Text.Encoding

set_option autoImplicit false

namespace ContractScript

namespace FileTree

/-! ## Targets -/

/-- Where a file is or can be made. -/
def Spot.target? : Spot → Option (List String)
  | .file steps _ => some steps
  | .vacant steps false => some steps
  | .vacant _ true => none
  | .directory _ => none

/-- The place of the file that writing to a path would change or make. -/
def target? (t : FileTree) (current path : String) : Option (List String) :=
  if hasNull path then none
  else
    match t.locate current path with
    | .ok spot => spot.target?
    | .error _ => none

/-- Writing to a path puts the bytes of the text at its target, or there is none. -/
theorem writeText_eq_ok {t t' : FileTree} {current path content : String} :
    t.writeText current path content = .ok t' ↔
      ∃ found, t.target? current path = some found ∧
        t' = t.insert found (.file (Text.Utf8.encode content)) := by
  unfold writeText target?
  by_cases null : hasNull path = true
  · simp [null]
  · rw [if_neg null, if_neg null]
    dsimp only
    cases t.locate current path with
    | error reason => simp
    | ok spot =>
      cases spot with
      | directory steps => simp [Spot.target?]
      | file steps bytes => simp [Spot.target?, eq_comm]
      | vacant steps slash => cases slash <;> simp [Spot.target?, eq_comm]

/-! ## What writing leaves alone -/

theorem node?_of_ne_nil {t : FileTree} {steps : List String} (some : steps ≠ []) :
    t.node? steps = t.nodes.get? steps := by
  unfold node?
  rw [if_neg (by simpa using some)]

theorem node?_insert_self {t : FileTree} {steps : List String} (some : steps ≠ []) (n : Node) :
    (t.insert steps n).node? steps = .some n := by
  rw [node?_of_ne_nil some]
  unfold insert
  dsimp only
  rw [OrderedMap.get?_insert, if_pos BEq.rfl]

/-- What is in another place stays there. -/
theorem node?_insert_of_ne {t : FileTree} {steps other : List String} {n x : Node}
    (differ : other ≠ steps) (there : t.node? other = some x) :
    (t.insert steps n).node? other = some x := by
  by_cases root : other = []
  · subst root
    exact there
  · rw [node?_of_ne_nil root] at there ⊢
    unfold insert
    dsimp only
    rw [OrderedMap.get?_insert, if_neg (by simpa using differ)]
    exact get?_makeDirectories _ there

/-- Every directory of a tree is one of another tree too. -/
def KeepsDirectories (t t' : FileTree) : Prop :=
  ∀ steps, t.node? steps = some .directory → t'.node? steps = some .directory

/-! ## Following a path again -/

/-- A target is not the root, and it is no directory. -/
theorem follow_target {t : FileTree} {path found : List String} {spot : Spot} :
    ∀ {here : List String}, t.follow here path = .ok spot → spot.target? = some found →
      found ≠ [] ∧ t.node? found ≠ some .directory := by
  -- the target is named at the last step, and there it is a file or nothing at all
  induction path with
  | nil =>
    intro here led target
    cases led
    cases target
  | cons step rest ih =>
    intro here led target
    rw [follow] at led
    split at led
    · exact ih led target
    split at led
    · exact ih led target
    split at led
    · cases led
    dsimp only at led
    split at led
    · exact ih led target
    · rename_i bytes there
      split at led
      · cases led
        cases target
        rw [there]
        exact ⟨by simp, by simp⟩
      · cases led
    · rename_i nothing
      split at led
      · cases led
        generalize (!rest.isEmpty) = slash at target
        cases slash with
        | true => cases target
        | false =>
          cases target
          rw [nothing]
          exact ⟨by simp, by simp⟩
      · cases led

/-- A path leads to its target, as long as the directories on its way are still there. -/
theorem follow_again {t t' : FileTree} (kept : t.KeepsDirectories t') {path found : List String}
    {bytes : ByteArray} (there : t'.node? found = some (.file bytes)) {spot : Spot} :
    ∀ {here : List String}, t.follow here path = .ok spot → spot.target? = some found →
      t'.follow here path = .ok (.file found bytes) := by
  -- both trees take the same turn at every step, since a directory on the way is one in both
  induction path with
  | nil =>
    intro here led target
    cases led
    cases target
  | cons step rest ih =>
    intro here led target
    rw [follow] at led ⊢
    split
    · rename_i idle
      rw [if_pos idle] at led
      exact ih led target
    rename_i moves
    rw [if_neg moves] at led
    split
    · rename_i up
      rw [if_pos up] at led
      exact ih led target
    rename_i down
    rw [if_neg down] at led
    split
    · rename_i long
      rw [if_pos long] at led
      cases led
    rename_i short
    rw [if_neg short] at led
    dsimp only at led ⊢
    split at led
    · rename_i inside
      rw [kept _ inside]
      exact ih led target
    · -- a file was there, and the path ended with it
      split at led
      · rename_i last
        cases led
        cases target
        rw [there]
        simp [last]
      · cases led
    · -- nothing was there, so the file has been made since
      split at led
      · cases led
        cases rest with
        | nil =>
          cases target
          rw [there]
          rfl
        | cons next rest => cases target
      · cases led

theorem target?_not_directory {t : FileTree} {current path : String} {found : List String}
    (target : t.target? current path = some found) :
    found ≠ [] ∧ t.node? found ≠ some .directory := by
  unfold target? at target
  split at target
  · cases target
  split at target
  · rename_i spot located
    unfold locate at located
    split at located
    · cases located
    split at located
    · cases located
    exact follow_target located target
  · cases target

/-- Writing to a target takes no directory away. -/
theorem keepsDirectories_insert {t : FileTree} {current path : String} {found : List String}
    (target : t.target? current path = some found) (n : Node) :
    t.KeepsDirectories (t.insert found n) := by
  intro steps directory
  refine node?_insert_of_ne (fun same => ?_) directory
  subst same
  exact (target?_not_directory target).2 directory

/-- The file at a target is read by the path, as long as the directories are still there. -/
theorem readBytes_again {t t' : FileTree} (kept : t.KeepsDirectories t') {current path : String}
    {found : List String} {bytes : ByteArray} (target : t.target? current path = some found)
    (there : t'.node? found = some (.file bytes)) : t'.readBytes current path = .ok bytes := by
  unfold target? at target
  unfold readBytes
  split
  · rename_i null
    rw [if_pos null] at target
    cases target
  rename_i plain
  rw [if_neg plain] at target
  split at target
  · rename_i spot located
    -- the tests of the path itself do not look at the tree
    have again : t'.locate current path = .ok (.file found bytes) := by
      unfold locate at located ⊢
      split
      · rename_i long
        rw [if_pos long] at located
        cases located
      rename_i short
      rw [if_neg short] at located
      split
      · rename_i empty
        rw [if_pos empty] at located
        cases located
      rename_i some
      rw [if_neg some] at located
      exact follow_again kept there located target
    rw [again]
  · cases target

end FileTree

/-! ## Files of a script -/

namespace Host

/-- The place of the file that a script would write with a path. -/
def target? (h : Host) (base : Option String) (path : String) : Option (List String) :=
  match h.scriptPath base path with
  | .ok full => h.files.target? h.current full
  | .error _ => none

/-- Writing succeeds where a path has a target, and changes the file there. -/
theorem write_eq_ok {h h' : Host} {base : Option String} {path content : String} :
    h.write base path content = .ok h' ↔ ∃ found, h.target? base path = some found ∧
      h' = { h with files := h.files.insert found (.file (Text.Utf8.encode content)) } := by
  unfold write target?
  cases h.scriptPath base path with
  | error problem => simp
  | ok full =>
    dsimp only
    cases written : h.files.writeText h.current full content with
    | ok files =>
      obtain ⟨found, target, rfl⟩ := FileTree.writeText_eq_ok.mp written
      simp [target, eq_comm]
    | error problem =>
      constructor
      · intro none
        cases none
      · rintro ⟨found, target, -⟩
        have ok : h.files.writeText h.current full content = .ok _ :=
          FileTree.writeText_eq_ok.mpr ⟨found, target, rfl⟩
        rw [written] at ok
        cases ok

/-- What is needed to find a file again: the host is where it was, no directory has gone, and the
file is there. -/
structure Preserves (found : List String) (bytes : ByteArray) (site site' : Module.Site) : Prop where
  current : site'.current = site.current
  home : site'.home = site.home
  directories : site.files.KeepsDirectories site'.files
  file : site'.files.node? found = some (.file bytes)

/-- Right after it was written a file is there. -/
theorem preserves_written {h : Host} {base : Option String} {path : String} {found : List String}
    (target : h.target? base path = some found) (bytes : ByteArray) :
    Preserves found bytes h.site { h.site with files := h.files.insert found (.file bytes) } := by
  unfold target? at target
  split at target
  · have some := (FileTree.target?_not_directory target).1
    exact ⟨rfl, rfl, FileTree.keepsDirectories_insert target _, FileTree.node?_insert_self some _⟩
  · cases target

/-- Writing another file leaves a file as it is. -/
theorem Preserves.written {found other : List String} {bytes bytes' : ByteArray}
    {site : Module.Site} {h : Host} (kept : Preserves found bytes site h.site)
    {base : Option String} {path : String} (target : h.target? base path = some other)
    (differ : other ≠ found) :
    Preserves found bytes site { h.site with files := h.files.insert other (.file bytes') } := by
  unfold target? at target
  split at target
  · refine ⟨kept.current, kept.home, fun steps directory => ?_, ?_⟩
    · exact FileTree.keepsDirectories_insert target _ steps (kept.directories steps directory)
    · exact FileTree.node?_insert_of_ne (fun same => differ same.symm) kept.file
  · cases target

theorem scriptPath_congr {h h' : Host} (current : h'.current = h.current) (home : h'.home = h.home)
    (base : Option String) (path : String) : h'.scriptPath base path = h.scriptPath base path := by
  unfold scriptPath
  rw [current, home]

/-- A file that is preserved is read by the path it was written with, and line ends are unified. -/
theorem read_of_preserves {h h' : Host} {base : Option String} {path text : String}
    {found : List String} (target : h.target? base path = some found)
    (kept : Preserves found (Text.Utf8.encode text) h.site h'.site) :
    h'.read base path = .ok (String.ofList (Text.unifyNewlines text.toList)) := by
  have current : h'.current = h.current := kept.current
  have same : h'.scriptPath base path = h.scriptPath base path :=
    scriptPath_congr current kept.home base path
  unfold target? at target
  unfold read
  rw [same]
  split at target
  · rename_i full seen
    have bytes : h'.files.readBytes h'.current full = .ok (Text.Utf8.encode text) := by
      rw [current]
      exact FileTree.readBytes_again kept.directories target kept.file
    rw [seen]
    dsimp only
    unfold FileTree.readText
    rw [bytes]
    dsimp only
    rw [Text.Utf8.decode_encode]
  · cases target

end Host

end ContractScript
