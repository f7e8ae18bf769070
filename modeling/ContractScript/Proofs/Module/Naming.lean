/-
One name for every module.

A path can be spelled in many ways: with steps up and back again, with idle steps, with
doubled slashes, with or without the usual end, from the root or from a directory. A
module is recognised by a name that is made from the text of the path alone. Here it is
shown that the name says exactly which module it is: following a path through the tree
leads to the steps that its normal form is made of, and from these steps the name is
written so that they can be read off again. Bundled modules have names of their own.
-/
import ContractScript.Host

set_option autoImplicit false

namespace ContractScript

/-! ## Steps and slashes -/

namespace Path

theorem steps_ne_nil (cs : List Char) : steps cs ≠ [] := by
  cases cs with
  | nil => simp [steps]
  | cons c rest =>
    rw [steps]
    split
    · exact List.cons_ne_nil _ _
    · split <;> exact List.cons_ne_nil _ _

theorem steps_slash (rest : List Char) : steps ('/' :: rest) = [] :: steps rest := by
  rw [steps, if_pos (by decide)]

theorem steps_cons {c : Char} (hc : c ≠ '/') {rest first : List Char} {more : List (List Char)}
    (h : steps rest = first :: more) : steps (c :: rest) = (c :: first) :: more := by
  rw [steps, if_neg (by simpa using hc), h]

/-- No step contains a slash. -/
theorem slash_notMem_of_mem_steps (cs : List Char) : ∀ step ∈ steps cs, '/' ∉ step := by
  induction cs with
  | nil => simp [steps]
  | cons c rest ih =>
    by_cases hc : c = '/'
    · subst hc
      rw [steps_slash, List.forall_mem_cons]
      exact ⟨List.not_mem_nil, ih⟩
    · obtain ⟨first, more, h⟩ := List.exists_cons_of_ne_nil (steps_ne_nil rest)
      rw [h, List.forall_mem_cons] at ih
      rw [steps_cons hc h, List.forall_mem_cons]
      refine ⟨?_, ih.2⟩
      rw [List.mem_cons, not_or]
      exact ⟨Ne.symm hc, ih.1⟩

/-- A text without slashes is one step, with whatever follows up to the next slash. -/
theorem steps_append {s : List Char} (hs : '/' ∉ s) {rest first : List Char}
    {more : List (List Char)} (h : steps rest = first :: more) :
    steps (s ++ rest) = (s ++ first) :: more := by
  induction s with
  | nil => exact h
  | cons c s ih =>
    rw [List.mem_cons, not_or] at hs
    exact steps_cons (Ne.symm hs.1) (ih hs.2)

/-- Steps that were joined can be told apart again. -/
theorem steps_join {ss : List (List Char)} (some : ss ≠ []) (hs : ∀ s ∈ ss, '/' ∉ s) :
    steps (join ss) = ss := by
  induction ss with
  | nil => exact absurd rfl some
  | cons s rest ih =>
    rw [List.forall_mem_cons] at hs
    cases rest with
    | nil =>
      have alone := steps_append hs.1 (show steps [] = [] :: [] from rfl)
      rw [List.append_nil] at alone
      exact alone
    | cons s' rest =>
      have further := ih (List.cons_ne_nil _ _) hs.2
      have cut := steps_append hs.1 (steps_slash (join (s' :: rest)))
      rw [List.append_nil, further] at cut
      exact cut

theorem head_join {ss : List (List Char)} (hs : ∀ s ∈ ss, s ≠ [] ∧ '/' ∉ s) (rest : List Char) :
    join ss ≠ '/' :: rest := by
  intro same
  cases ss with
  | nil => cases same
  | cons s more =>
    rw [List.forall_mem_cons] at hs
    cases s with
    | nil => exact hs.1.1 rfl
    | cons c s =>
      have first : c = '/' := by
        cases more <;> simp [join] at same <;> exact same.1
      exact hs.1.2 (first ▸ List.mem_cons_self)

end Path

/-! ## Following a path and normalising it -/

/-- Where a step leads from a directory if everything is there. -/
def FileTree.walk (here : List String) (step : String) : List String :=
  if step == "" || step == "." then here
  else if step == ".." then here.dropLast
  else here ++ [step]

/-- Whoever gets to a file by following steps has walked them all. -/
theorem FileTree.follow_file {t : FileTree} {steps : List String} :
    ∀ {here found : List String} {bytes : ByteArray},
      t.follow here steps = .ok (.file found bytes) →
        found = steps.foldl walk here ∧ t.node? found = some (.file bytes) := by
  -- following and walking take the same steps, but following also looks what is there
  induction steps with
  | nil =>
    intro here found bytes h
    cases h
  | cons step rest ih =>
    intro here found bytes h
    rw [follow] at h
    rw [List.foldl_cons, walk]
    split at h
    · rename_i idle
      rw [if_pos idle]
      exact ih h
    rename_i moves
    rw [if_neg moves]
    split at h
    · rename_i up
      rw [if_pos up]
      exact ih h
    rename_i down
    rw [if_neg down]
    split at h
    · cases h
    dsimp only at h
    split at h
    · exact ih h
    · -- a file ends the walk, so no step is left over
      rename_i there
      split at h
      · rename_i last
        rw [List.isEmpty_iff] at last
        subst last
        cases h
        exact ⟨rfl, there⟩
      · cases h
    · split at h <;> cases h

theorem FileTree.mem_foldl_walk {steps : List String} :
    ∀ {here : List String} {s : String}, s ∈ steps.foldl walk here → s ∈ here ∨ s ∈ steps := by
  induction steps with
  | nil => exact fun h => .inl h
  | cons step rest ih =>
    intro here s h
    rcases ih h with h | h
    · -- a step either goes nowhere, or forgets the last step, or adds itself
      unfold walk at h
      split at h
      · exact .inl h
      split at h
      · exact .inl (List.dropLast_subset here h)
      · rw [List.mem_append, List.mem_singleton] at h
        rcases h with h | rfl
        · exact .inl h
        · exact .inr List.mem_cons_self
    · exact .inr (List.mem_cons_of_mem _ h)

namespace Path

/-- A step as it stands in a normal form that starts at the root. -/
def Plain (step : List Char) : Prop :=
  step ≠ [] ∧ '/' ∉ step ∧ step ≠ ['.', '.']

theorem ofList_beq (a b : List Char) : (String.ofList a == String.ofList b) = (a == b) := by
  rw [Bool.eq_iff_iff, beq_iff_eq, beq_iff_eq, String.ofList_inj]

/-- Normalising does to the text of a path what following it does in the tree. -/
theorem climb_eq_walk {before : List (List Char)} {step : List Char} (plain : ∀ s ∈ before, Plain s)
    (clean : '/' ∉ step) :
    (climb true before step).reverse.map String.ofList
        = FileTree.walk (before.reverse.map String.ofList) (String.ofList step) ∧
      ∀ s ∈ climb true before step, Plain s := by
  have empty : (String.ofList step == "") = (step == []) := ofList_beq step []
  have point : (String.ofList step == ".") = (step == ['.']) := ofList_beq step ['.']
  have up : (String.ofList step == "..") = (step == ['.', '.']) := ofList_beq step ['.', '.']
  unfold climb FileTree.walk isIdle
  rw [empty, point, up]
  split
  · exact ⟨rfl, plain⟩
  rename_i moves
  rw [Bool.or_eq_true, beq_iff_eq, beq_iff_eq, not_or] at moves
  by_cases rises : step = ['.', '.']
  · subst rises
    rw [if_neg (show ¬ (['.', '.'] != ['.', '.']) = true by decide),
      if_pos (show (['.', '.'] == ['.', '.']) = true by decide)]
    cases before with
    | nil => exact ⟨rfl, plain⟩
    | cons last rest =>
      rw [List.forall_mem_cons] at plain
      -- the step before is not a step up, so it is undone
      have undone : (last == ['.', '.']) = false := by simpa using plain.1.2.2
      dsimp only
      rw [undone, if_neg Bool.false_ne_true]
      refine ⟨?_, plain.2⟩
      rw [← List.map_dropLast, List.dropLast_reverse, List.tail_cons]
  · rw [if_pos (by simpa using rises), if_neg (by simpa using rises), List.reverse_cons,
      List.map_append, List.map_singleton, List.forall_mem_cons]
    exact ⟨rfl, ⟨moves.1, clean, rises⟩, plain⟩

theorem foldl_climb {steps : List (List Char)} :
    ∀ {before : List (List Char)}, (∀ s ∈ before, Plain s) → (∀ s ∈ steps, '/' ∉ s) →
      (steps.foldl (climb true) before).reverse.map String.ofList
          = (steps.map String.ofList).foldl FileTree.walk (before.reverse.map String.ofList) ∧
        ∀ s ∈ steps.foldl (climb true) before, Plain s := by
  induction steps with
  | nil => exact fun plain _ => ⟨rfl, plain⟩
  | cons step rest ih =>
    intro before plain clean
    rw [List.forall_mem_cons] at clean
    obtain ⟨same, plain'⟩ := climb_eq_walk plain clean.1
    rw [List.foldl_cons, List.map_cons, List.foldl_cons, ← same]
    exact ih plain' clean.2

theorem root_of_isAbsolute {cs : List Char} (h : isAbsolute cs = true) :
    root cs = ['/'] ∨ root cs = ['/', '/'] := by
  cases cs with
  | nil => cases h
  | cons c rest =>
    have first : c = '/' := by simpa [isAbsolute] using h
    subst first
    unfold root
    split
    · exact .inl rfl
    · exact .inr rfl
    · exact .inl rfl
    · rename_i other
      exact absurd rfl (other rest)

theorem isAbsolute_within {base : String} (absolute : isAbsolute base.toList = true) (path : String) :
    isAbsolute (within base path).toList = true := by
  have starts : base.toList.head? = some '/' := by simpa [isAbsolute] using absolute
  unfold within
  split
  · assumption
  split
  · rw [isAbsolute, String.toList_append, List.head?_append, starts]
    rfl
  · rw [isAbsolute, String.toList_append, String.toList_append, List.head?_append, List.head?_append,
      starts]
    rfl

/-- The one spelling of a path from the root: a slash, and then what walking it leads to. -/
theorem canonical_eq {path : String} (absolute : isAbsolute path.toList = true) :
    canonical path = String.ofList ('/' :: join
      (((FileTree.stepsOf path).foldl FileTree.walk []).map String.toList)) := by
  have none : ∀ s ∈ ([] : List (List Char)), Plain s := fun _ h => absurd h List.not_mem_nil
  obtain ⟨walked, plain⟩ := foldl_climb none (slash_notMem_of_mem_steps path.toList)
  have steps : ((FileTree.stepsOf path).foldl FileTree.walk []).map String.toList
      = ((steps path.toList).foldl (climb true) []).reverse := by
    unfold FileTree.stepsOf
    rw [List.reverse_nil, List.map_nil] at walked
    rw [← walked, List.map_map]
    simp [Function.comp_def]
  rw [steps]
  have proper : ∀ s ∈ ((Path.steps path.toList).foldl (climb true) []).reverse, s ≠ [] ∧ '/' ∉ s := by
    intro s hs
    rw [List.mem_reverse] at hs
    exact ⟨(plain s hs).1, (plain s hs).2.1⟩
  unfold canonical normalizeChars
  rw [absolute]
  dsimp only
  rcases root_of_isAbsolute absolute with slash | slashes
  · -- behind the one slash there is no other, so nothing is dropped
    rw [slash]
    have single := head_join proper
    unfold orPoint
    dsimp only [List.cons_append, List.nil_append, List.isEmpty_cons]
    rw [if_neg Bool.false_ne_true]
    split
    · rename_i rest same
      exact absurd (List.cons.inj same).2 (single rest)
    · rfl
  · rw [slashes]
    rfl

end Path

/-! ## What a module is, whatever it is called -/

namespace Module

/-- A module: a bundled one, or the file at the end of some steps from the root. -/
inductive Origin where
  | bundled (name : String)
  | file (steps : List String)
deriving Repr, DecidableEq

/-- The name by which a module is recognised. -/
def Origin.name : Origin → String
  | .bundled name => larderRoot ++ name
  | .file steps => String.ofList ('/' :: Path.join (steps.map String.toList))

/-- All the modules that there are. -/
def all (files : FileTree) : List Origin :=
  Larder.modules.map (fun entry => .bundled entry.1) ++ files.files.map (fun entry => .file entry.1)

/-- Where a path of an import is seen from. -/
def startOf (site : Site) : Option String → String
  | some dir => if dir.isEmpty then site.current else dir
  | none => site.current

/-- The module that a loader means by a path: the name behind the common start, or the file that the
path leads to in the tree. -/
def Loader.origin? (site : Site) (base : Option String) (path : String) : Loader → Option Origin
  | .larder => ((dropStart? larderRoot path).map (dropEnd suffix)).map .bundled
  | .files =>
    match (Path.expandHome? site.home path).map (filePath site (startOf site base)) with
    | none => none
    | some full =>
      match site.files.locate site.current full with
      | .ok (.file steps _) => some (.file steps)
      | _ => none
  | .deny _ => none

/-- The module that a path means. -/
def origin? (loaders : List Loader) (site : Site) (base : Option String) (path : String) :
    Option Origin :=
  (loaders.find? (Loader.claims path)).bind (Loader.origin? site base path)

/-- What can be read off a name again: the steps to a file have no slashes in them. -/
def Origin.Proper : Origin → Prop
  | .bundled _ => True
  | .file steps => steps ≠ [] ∧ ∀ s ∈ steps, '/' ∉ s.toList

/-- Different modules have different names. -/
theorem Origin.name_injective {a b : Origin} (ha : a.Proper) (hb : b.Proper)
    (same : a.name = b.name) : a = b := by
  -- the names of files start with a slash, those of bundled modules do not
  have unlike (name : String) (steps : List String) :
      (Origin.bundled name).name ≠ (Origin.file steps).name := by
    intro same
    have chars := congrArg (fun s => s.toList.head?) same
    simp [Origin.name, larderRoot] at chars
  cases a with
  | bundled name =>
    cases b with
    | bundled other =>
      have chars : larderRoot.toList ++ name.toList = larderRoot.toList ++ other.toList := by
        rw [← String.toList_append, ← String.toList_append]
        exact congrArg String.toList same
      rw [String.toList_inj.mp (List.append_cancel_left chars)]
    | file steps => exact absurd same (unlike name steps)
  | file steps =>
    cases b with
    | bundled name => exact absurd same.symm (unlike name steps)
    | file others =>
      have joined : Path.join (steps.map String.toList) = Path.join (others.map String.toList) :=
        (List.cons.inj (String.ofList_injective same)).2
      -- without slashes in them the steps can be read off what is joined
      have read : ∀ ss : List String, ss ≠ [] → (∀ s ∈ ss, '/' ∉ s.toList) →
          Path.steps (Path.join (ss.map String.toList)) = ss.map String.toList := by
        intro ss some clean
        refine Path.steps_join (by simpa using some) fun cs hcs => ?_
        obtain ⟨s, hs, rfl⟩ := List.mem_map.mp hcs
        exact clean s hs
      have mapped : steps.map String.toList = others.map String.toList := by
        rw [← read steps ha.1 ha.2, joined, read others hb.1 hb.2]
      have same : steps = others := (List.map_inj_right fun _ _ => String.toList_inj.mp).mp mapped
      rw [same]

end Module

/-- The files of the tree are among the modules that there are. -/
theorem Module.file_mem_all {t : FileTree} {steps : List String} :
    Module.Origin.file steps ∈ Module.all t ↔ ∃ bytes, t.nodes.get? steps = some (.file bytes) := by
  unfold Module.all FileTree.files
  rw [List.mem_append, List.mem_map, List.mem_map]
  constructor
  · rintro (⟨entry, -, same⟩ | ⟨⟨steps', bytes⟩, listed, same⟩)
    · cases same
    · cases same
      obtain ⟨⟨steps', n⟩, entry, kind⟩ := List.mem_filterMap.mp listed
      cases n with
      | directory => cases kind
      | file bytes' =>
        cases kind
        exact ⟨bytes, OrderedMap.get?_eq_some.mpr entry⟩
  · rintro ⟨bytes, found⟩
    have entry := OrderedMap.get?_eq_some.mp found
    exact .inr ⟨(steps, bytes), List.mem_filterMap.mpr ⟨_, entry, rfl⟩, rfl⟩

/-- No module is there twice. -/
theorem Module.nodup_all (t : FileTree) : (Module.all t).Nodup := by
  have bundled : Larder.modules.Pairwise fun a b => a.1 ≠ b.1 :=
    List.pairwise_map.mp (show (Larder.modules.map Prod.fst).Nodup by decide)
  have nodes : t.nodes.entries.Pairwise fun a b => a.1 ≠ b.1 := List.pairwise_map.mp t.nodes.nodup_keys
  have files : t.files.Pairwise fun a b => a.1 ≠ b.1 := by
    refine nodes.filterMap _ ?_
    rintro ⟨steps, n⟩ ⟨steps', n'⟩ different a ha b hb
    cases n <;> cases ha
    cases n' <;> cases hb
    exact different
  unfold Module.all
  rw [List.nodup_append]
  refine ⟨List.pairwise_map.mpr ?_, List.pairwise_map.mpr ?_, ?_⟩
  · exact bundled.imp fun different same => different (Origin.bundled.inj same)
  · exact files.imp fun different same => different (Origin.file.inj same)
  · intro a ha b hb same
    obtain ⟨_, -, rfl⟩ := List.mem_map.mp ha
    obtain ⟨_, -, rfl⟩ := List.mem_map.mp hb
    cases same

/-- Where a path that starts at the root leads to a file, its one spelling is the name of that
file. -/
theorem FileTree.canonical_of_locate {t : FileTree} {current path : String} {steps : List String}
    {bytes : ByteArray} (absolute : Path.isAbsolute current.toList = true)
    (found : t.locate current path = .ok (.file steps bytes)) :
    Path.canonical (Path.within current path) = (Module.Origin.file steps).name ∧
      (Module.Origin.file steps).Proper ∧ Module.Origin.file steps ∈ Module.all t := by
  unfold FileTree.locate at found
  split at found
  · cases found
  split at found
  · cases found
  obtain ⟨rfl, there⟩ := FileTree.follow_file found
  have rooted := Path.isAbsolute_within absolute path
  -- the root is a directory, so a file is at least one step below it
  have below : (FileTree.stepsOf (Path.within current path)).foldl FileTree.walk [] ≠ [] := by
    intro none
    rw [none] at there
    cases there
  refine ⟨Path.canonical_eq rooted, ⟨below, ?_⟩, Module.file_mem_all.mpr ⟨bytes, ?_⟩⟩
  · intro s hs
    rcases FileTree.mem_foldl_walk hs with h | h
    · cases h
    · obtain ⟨cs, hcs, rfl⟩ := List.mem_map.mp h
      rw [String.toList_ofList]
      exact Path.slash_notMem_of_mem_steps _ cs hcs
  · unfold FileTree.node? at there
    rw [if_neg (by simpa using below)] at there
    exact there

theorem FileTree.locate_of_isFile {t : FileTree} {current path : String}
    (h : t.isFile current path = true) :
    ∃ steps bytes, t.locate current path = .ok (.file steps bytes) := by
  unfold FileTree.isFile at h
  split at h
  · cases h
  · split at h
    · rename_i steps bytes found
      exact ⟨steps, bytes, found⟩
    · cases h

namespace Module

theorem fromLarder_origin {site : Site} (base : Option String) {path : String}
    {source : ModuleSource} (loaded : fromLarder path = .ok (some source)) :
    ∃ o, Loader.origin? site base path .larder = some o ∧ o.Proper ∧ o ∈ all site.files ∧
      source.name = o.name := by
  unfold fromLarder at loaded
  cases found : (dropStart? larderRoot path).map (dropEnd suffix) with
  | none =>
    rw [found] at loaded
    cases loaded
  | some name =>
    rw [found] at loaded
    dsimp only at loaded
    split at loaded
    · cases loaded
    split at loaded
    · cases loaded
    split at loaded
    · cases loaded
    -- the name is one that a bundled module may have, and there is one
    rw [Except.ok.injEq, Option.map_eq_some_iff] at loaded
    obtain ⟨text, bundled, rfl⟩ := loaded
    refine ⟨.bundled name, ?_, trivial, ?_, rfl⟩
    · unfold Loader.origin?
      rw [found, Option.map_some]
    · unfold Larder.source? at bundled
      rw [Option.map_eq_some_iff] at bundled
      obtain ⟨entry, hit, -⟩ := bundled
      have same : entry.1 = name := by simpa using List.find?_some hit
      refine List.mem_append_left _ (List.mem_map.mpr ⟨entry, List.mem_of_find?_eq_some hit, ?_⟩)
      rw [same]

theorem fromFiles_eq (site : Site) (base : Option String) (path : String) :
    fromFiles site base path
      = match (Path.expandHome? site.home path).map (filePath site (startOf site base)) with
        | none => .error .nullByte
        | some full =>
          if site.files.isFile site.current full then
            match site.files.readText site.current full with
            | .ok source =>
              .ok (some ⟨source, Path.canonical (Path.within site.current full),
                some (Path.directory full)⟩)
            | .error (.undecodable m) => .error (.undecodable m)
            | .error _ => .ok none
          else .ok none := by
  cases base <;> rfl

theorem fromFiles_origin {site : Site} {base : Option String} {path : String} {source : ModuleSource}
    (absolute : Path.isAbsolute site.current.toList = true)
    (loaded : fromFiles site base path = .ok (some source)) :
    ∃ o, Loader.origin? site base path .files = some o ∧ o.Proper ∧ o ∈ all site.files ∧
      source.name = o.name := by
  rw [fromFiles_eq] at loaded
  cases meant : (Path.expandHome? site.home path).map (filePath site (startOf site base)) with
  | none =>
    rw [meant] at loaded
    cases loaded
  | some full =>
    rw [meant] at loaded
    dsimp only at loaded
    split at loaded
    · rename_i there
      obtain ⟨steps, bytes, found⟩ := FileTree.locate_of_isFile there
      -- the module is named by the spelling of the path, which is that of the file it leads to
      obtain ⟨named, proper, member⟩ := FileTree.canonical_of_locate absolute found
      refine ⟨.file steps, ?_, proper, member, ?_⟩
      · unfold Loader.origin?
        rw [meant]
        dsimp only
        rw [found]
      · split at loaded
        · cases loaded
          exact named
        · cases loaded
        · cases loaded
    · cases loaded

/-- A module that is loaded is one of those that there are, and it goes by its name. -/
theorem load_origin {loaders : List Loader} {site : Site} {base : Option String} {path : String}
    {source : ModuleSource} (absolute : Path.isAbsolute site.current.toList = true)
    (loaded : load loaders site base path = .ok (some source)) :
    ∃ o, origin? loaders site base path = some o ∧ o.Proper ∧ o ∈ all site.files ∧
      source.name = o.name := by
  unfold load at loaded
  unfold origin?
  cases claimed : loaders.find? (Loader.claims path) with
  | none =>
    rw [claimed] at loaded
    cases loaded
  | some loader =>
    rw [claimed] at loaded
    cases loader with
    | larder => exact fromLarder_origin base loaded
    | files => exact fromFiles_origin absolute loaded
    | deny paths =>
      unfold Loader.load at loaded
      dsimp only at loaded
      split at loaded <;> cases loaded

end Module

/-! ## Modules do not vanish -/

namespace FileTree

/-- Making a directory where there is nothing replaces no file. -/
theorem get?_makeDirectory {t : FileTree} {steps dir : List String} {n : Node}
    (found : t.nodes.get? steps = some n) :
    (if (t.node? dir).isSome then t else ⟨t.nodes.insert dir .directory⟩ : FileTree).nodes.get? steps
      = some n := by
  split
  · exact found
  · rename_i vacant
    -- where the directory is made there was no node, so the file is elsewhere
    have other : steps ≠ dir := by
      intro same
      subst same
      unfold node? at vacant
      split at vacant
      · exact vacant rfl
      · rw [found] at vacant
        exact vacant rfl
    rw [OrderedMap.get?_insert, if_neg (by simpa using other)]
    exact found

theorem get?_makeDirectories {steps : List String} {n : Node} (dirs : List (List String)) :
    ∀ {t : FileTree}, t.nodes.get? steps = some n →
      (dirs.foldl (fun tree dir =>
        if (tree.node? dir).isSome then tree else ⟨tree.nodes.insert dir .directory⟩) t).nodes.get? steps
        = some n := by
  induction dirs with
  | nil => exact fun found => found
  | cons dir rest ih => exact fun found => ih (get?_makeDirectory found)

/-- A file that is put into the tree takes the place of no other. -/
theorem mem_all_insert {t : FileTree} {o : Module.Origin} (h : o ∈ Module.all t)
    (steps : List String) (bytes : ByteArray) : o ∈ Module.all (t.insert steps (.file bytes)) := by
  cases o with
  | bundled name =>
    unfold Module.all at h ⊢
    rw [List.mem_append] at h ⊢
    refine .inl (h.resolve_right fun listed => ?_)
    obtain ⟨_, -, same⟩ := List.mem_map.mp listed
    cases same
  | file kept =>
    obtain ⟨old, found⟩ := Module.file_mem_all.mp h
    rw [Module.file_mem_all]
    unfold FileTree.insert
    dsimp only
    rw [OrderedMap.get?_insert]
    split
    · exact ⟨bytes, rfl⟩
    · exact ⟨old, get?_makeDirectories _ found⟩

theorem mem_all_writeText {t t' : FileTree} {current path content : String}
    (written : t.writeText current path content = .ok t') {o : Module.Origin}
    (h : o ∈ Module.all t) : o ∈ Module.all t' := by
  unfold writeText at written
  split at written
  · cases written
  dsimp only at written
  split at written
  · cases written
    exact mem_all_insert h _ _
  · cases written
  · split at written
    · cases written
    · cases written
      exact mem_all_insert h _ _
  · cases written

end FileTree

/-- Writing a file moves nowhere and removes no module. -/
theorem Host.mem_all_write {h h' : Host} {base : Option String} {path content : String}
    (written : h.write base path content = .ok h') :
    h'.current = h.current ∧ ∀ o ∈ Module.all h.files, o ∈ Module.all h'.files := by
  unfold Host.write at written
  split at written
  · cases written
  · split at written
    · rename_i made
      cases written
      exact ⟨rfl, fun o => FileTree.mem_all_writeText made⟩
    · cases written

end ContractScript
