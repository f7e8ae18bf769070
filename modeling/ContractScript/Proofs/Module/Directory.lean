/-
Directories of modules.

A module in a file has a directory, from which its own imports are seen. The directory is
kept as a text, cut off the path by which the module was found, and that path may itself be
seen from a current directory. Here it is shown to be the right one: walking it leads to
where the steps to the file lead without the last of them. The last step has to be a name,
and not a step up or one that goes nowhere, because it leads to a file.

A path is cut at its last slash throughout. Walking the part in front of the slash and then
the part behind it is walking the path.
-/
import Mathlib.Data.List.Induction
import Mathlib.Data.List.TakeWhile
import ContractScript.Proofs.Module.Naming

set_option autoImplicit false

namespace ContractScript

open FileTree (walk)

/-! ## Walking a text -/

namespace Path

/-- Where walking a path leads from some steps, if everything is there. -/
def walked (here : List String) (path : List Char) : List String :=
  ((steps path).map String.ofList).foldl walk here

theorem steps_append_slash (front back : List Char) :
    steps (front ++ '/' :: back) = steps front ++ steps back := by
  induction front with
  | nil => exact steps_slash back
  | cons c front ih =>
    by_cases hc : c = '/'
    · subst hc
      rw [List.cons_append, steps_slash, steps_slash, ih, List.cons_append]
    · obtain ⟨first, more, h⟩ := List.exists_cons_of_ne_nil (steps_ne_nil front)
      have whole : steps (front ++ '/' :: back) = first :: (more ++ steps back) := by
        rw [ih, h, List.cons_append]
      rw [List.cons_append, steps_cons hc whole, steps_cons hc h, List.cons_append]

theorem steps_of_no_slash {name : List Char} (h : '/' ∉ name) : steps name = [name] := by
  have alone := steps_append h (show steps [] = [] :: [] from rfl)
  rw [List.append_nil] at alone
  exact alone

theorem walked_append_slash (here : List String) (front back : List Char) :
    walked here (front ++ '/' :: back) = walked (walked here front) back := by
  unfold walked
  rw [steps_append_slash, List.map_append, List.foldl_append]

theorem walked_slash (here : List String) (back : List Char) :
    walked here ('/' :: back) = walked here back :=
  walked_append_slash here [] back

/-- A path that ends in a slash leads where it leads without the slash. -/
theorem walked_concat_slash (here : List String) (front : List Char) :
    walked here (front ++ ['/']) = walked here front :=
  walked_append_slash here front []

theorem walked_dropSlashes (here : List String) (path : List Char) :
    walked here (dropSlashes path) = walked here path := by
  induction path using List.reverseRecOn with
  | nil => rfl
  | append_singleton path c ih =>
    unfold dropSlashes at ih ⊢
    rw [List.reverse_append, List.reverse_singleton, List.singleton_append]
    by_cases hc : c = '/'
    · subst hc
      rw [List.dropWhile_cons_of_pos (by rfl), ih, walked_concat_slash]
    · rw [List.dropWhile_cons_of_neg (by simpa using hc), List.reverse_cons, List.reverse_reverse]

/-- A path seen from a base stands behind a slash, and in front of that is the base. -/
theorem within_split {base path : String} (some : base ≠ "") (relative : isAbsolute path.toList = false) :
    ∃ front, (within base path).toList = front ++ '/' :: path.toList ∧
      ∀ here, walked here front = walked here base.toList := by
  unfold within
  rw [relative, if_neg Bool.false_ne_true]
  by_cases closed : (base.isEmpty || base.toList.getLast? == Option.some '/') = true
  · rw [if_pos closed, String.toList_append]
    rw [Bool.or_eq_true, beq_iff_eq, String.isEmpty_iff] at closed
    obtain ⟨front, same⟩ := List.getLast?_eq_some_iff.mp (closed.resolve_left some)
    refine ⟨front, ?_, fun here => ?_⟩
    · rw [same, List.append_assoc, List.singleton_append]
    · rw [same, walked_concat_slash]
  · rw [if_neg closed, String.toList_append, String.toList_append, List.append_assoc]
    exact ⟨base.toList, rfl, fun _ => rfl⟩

theorem walked_within {base path : String} (some : base ≠ "") (relative : isAbsolute path.toList = false)
    (here : List String) :
    walked here (within base path).toList = walked (walked here base.toList) path.toList := by
  obtain ⟨front, split, same⟩ := within_split some relative
  rw [split, walked_append_slash, same]

theorem isAbsolute_within_relative {base path : String} (some : base ≠ "")
    (relative : isAbsolute path.toList = false) :
    isAbsolute (within base path).toList = isAbsolute base.toList := by
  obtain ⟨c, rest, starts⟩ := List.exists_cons_of_ne_nil
    (show base.toList ≠ [] from fun none => some (String.toList_eq_nil_iff.mp none))
  unfold within
  rw [relative, if_neg Bool.false_ne_true]
  split
  · rw [String.toList_append, starts]
    rfl
  · rw [String.toList_append, String.toList_append, starts]
    rfl

theorem within_of_isAbsolute {base path : String} (absolute : isAbsolute path.toList = true) :
    within base path = path := by
  unfold within
  rw [if_pos absolute]

/-! ## The normal form of a path -/

/-- Where steps lead that were noted latest first. -/
def along (here : List String) (before : List (List Char)) : List String :=
  (before.reverse.map String.ofList).foldl walk here

theorem along_cons (here : List String) (step : List Char) (before : List (List Char)) :
    along here (step :: before) = walk (along here before) (String.ofList step) := by
  unfold along
  rw [List.reverse_cons, List.map_append, List.foldl_append, List.map_singleton]
  rfl

theorem walk_of_isIdle {step : List Char} (idle : isIdle step = true) (here : List String) :
    walk here (String.ofList step) = here := by
  unfold isIdle at idle
  rw [← ofList_beq step [], ← ofList_beq step ['.']] at idle
  exact if_pos idle

theorem walk_up (here : List String) : walk here (String.ofList ['.', '.']) = here.dropLast :=
  rfl

theorem walk_name {step : List Char} (moves : isIdle step = false) (name : step ≠ ['.', '.'])
    (here : List String) : walk here (String.ofList step) = here ++ [String.ofList step] := by
  have up : ¬ (String.ofList step == "..") = true := by
    rw [show ".." = String.ofList ['.', '.'] from rfl, ofList_beq]
    simpa using name
  have idle : ¬ (String.ofList step == "" || String.ofList step == ".") = true := by
    unfold isIdle at moves
    rw [← ofList_beq step [], ← ofList_beq step ['.']] at moves
    rw [Bool.not_eq_true]
    exact moves
  unfold FileTree.walk
  rw [if_neg idle, if_neg up]

/-- A step that is added to a normal form leads on from where that leads. Steps up that nothing is in
front of stay, unless the path starts at the root. -/
theorem along_climb {absolute : Bool} {here : List String} (root : absolute = true → here = [])
    {before : List (List Char)} (moves : ∀ s ∈ before, isIdle s = false) (step : List Char) :
    along here (climb absolute before step) = walk (along here before) (String.ofList step) ∧
      ∀ s ∈ climb absolute before step, isIdle s = false := by
  unfold climb
  by_cases idle : isIdle step = true
  · rw [if_pos idle, walk_of_isIdle idle]
    exact ⟨rfl, moves⟩
  rw [if_neg idle]
  rw [Bool.not_eq_true] at idle
  have kept : ∀ s ∈ step :: before, isIdle s = false := List.forall_mem_cons.mpr ⟨idle, moves⟩
  -- a step up undoes a name, is kept behind other steps up, and vanishes at the root
  by_cases up : step = ['.', '.']
  · subst up
    rw [if_neg (by decide), walk_up]
    cases before with
    | nil =>
      cases absolute with
      | true =>
        rw [root rfl]
        exact ⟨rfl, moves⟩
      | false => exact ⟨rfl, kept⟩
    | cons last rest =>
      dsimp only
      by_cases again : last = ['.', '.']
      · rw [if_pos (by simpa using again), along_cons, walk_up]
        exact ⟨rfl, kept⟩
      · -- the step before is a name, which the step up undoes
        rw [List.forall_mem_cons] at moves
        rw [if_neg (by simpa using again), along_cons, walk_name moves.1 again, List.dropLast_concat]
        exact ⟨rfl, moves.2⟩
  · rw [if_pos (by simpa using up), along_cons]
    exact ⟨rfl, kept⟩

theorem along_foldl_climb (absolute : Bool) {here : List String} (root : absolute = true → here = [])
    (steps : List (List Char)) : ∀ {before : List (List Char)}, (∀ s ∈ before, isIdle s = false) →
      along here (steps.foldl (climb absolute) before)
          = (steps.map String.ofList).foldl walk (along here before) ∧
        ∀ s ∈ steps.foldl (climb absolute) before, isIdle s = false := by
  induction steps with
  | nil => exact fun moves => ⟨rfl, moves⟩
  | cons step rest ih =>
    intro before moves
    obtain ⟨leads, kept⟩ := along_climb root moves step
    rw [List.foldl_cons, List.map_cons, List.foldl_cons, ← leads]
    exact ih kept

theorem slash_notMem_foldl_climb {absolute : Bool} (steps : List (List Char)) :
    ∀ {before : List (List Char)}, (∀ s ∈ steps, '/' ∉ s) → (∀ s ∈ before, '/' ∉ s) →
      ∀ s ∈ steps.foldl (climb absolute) before, '/' ∉ s := by
  induction steps with
  | nil => exact fun _ clean => clean
  | cons step rest ih =>
    intro before hsteps clean
    rw [List.forall_mem_cons] at hsteps
    refine ih hsteps.2 ?_
    unfold climb
    split
    · exact clean
    split
    · exact List.forall_mem_cons.mpr ⟨hsteps.1, clean⟩
    split
    · split
      · exact clean
      · exact List.forall_mem_cons.mpr ⟨hsteps.1, clean⟩
    · split
      · exact List.forall_mem_cons.mpr ⟨hsteps.1, clean⟩
      · exact (List.forall_mem_cons.mp clean).2

theorem walked_join {ss : List (List Char)} (clean : ∀ s ∈ ss, '/' ∉ s) (here : List String) :
    walked here (join ss) = (ss.map String.ofList).foldl walk here := by
  cases ss with
  | nil => rfl
  | cons s rest =>
    unfold walked
    rw [steps_join (List.cons_ne_nil s rest) clean]

theorem walked_root (here : List String) (path rest : List Char) :
    walked here (root path ++ rest) = walked here rest := by
  unfold root
  split
  · exact walked_slash here rest
  · exact (walked_slash here _).trans (walked_slash here rest)
  · exact walked_slash here rest
  · rfl

theorem walked_orPoint (here : List String) (path : List Char) :
    walked here (orPoint path) = walked here path := by
  unfold orPoint
  split
  · rename_i none
    rw [List.isEmpty_iff.mp none]
    rfl
  · rfl

/-- The steps of a normal form. -/
theorem slash_notMem_climbed (path : List Char) :
    ∀ s ∈ ((steps path).foldl (climb (isAbsolute path)) []).reverse, '/' ∉ s := by
  intro s hs
  rw [List.mem_reverse] at hs
  exact slash_notMem_foldl_climb _ (slash_notMem_of_mem_steps path)
    (fun _ h => absurd h List.not_mem_nil) s hs

theorem orPoint_append {path : List Char} (some : path ≠ []) (ending : List Char) :
    orPoint (path ++ ending) = orPoint path ++ ending := by
  obtain ⟨c, rest, rfl⟩ := List.exists_cons_of_ne_nil some
  rfl

/-- The normal form of a path leads where the path leads. -/
theorem walked_normalizeChars {here : List String} {path : List Char}
    (root : isAbsolute path = true → here = []) : walked here (normalizeChars path) = walked here path := by
  unfold normalizeChars
  dsimp only
  rw [walked_orPoint, walked_root, walked_join (slash_notMem_climbed path)]
  exact (along_foldl_climb _ root (steps path) fun _ h => absurd h List.not_mem_nil).1

/-- The normal form of a path starts at the root if the path does. -/
theorem isAbsolute_normalizeChars (path : List Char) :
    isAbsolute (normalizeChars path) = isAbsolute path := by
  unfold normalizeChars
  dsimp only
  by_cases rooted : isAbsolute path = true
  · rw [rooted]
    rcases root_of_isAbsolute rooted with slash | slashes
    · rw [slash]
      rfl
    · rw [slashes]
      rfl
  · rw [Bool.not_eq_true] at rooted
    have none : root path = [] := by
      unfold root
      split
      · cases rooted
      · cases rooted
      · cases rooted
      · rfl
    have moves := (along_foldl_climb (isAbsolute path) (fun _ => rfl : _ → ([] : List String) = [])
      (steps path) fun _ h => absurd h List.not_mem_nil).2
    -- no step that is kept is empty, so the joined steps do not start with a slash
    have proper : ∀ s ∈ ((steps path).foldl (climb (isAbsolute path)) []).reverse, s ≠ [] ∧ '/' ∉ s := by
      intro s hs
      refine ⟨fun empty => ?_, slash_notMem_climbed path s hs⟩
      have idle := moves s (List.mem_reverse.mp hs)
      rw [empty] at idle
      cases idle
    rw [none, List.nil_append, rooted, Bool.eq_false_iff]
    intro starts
    unfold orPoint isAbsolute at starts
    split at starts
    · cases starts
    · rw [beq_iff_eq, List.head?_eq_some_iff] at starts
      obtain ⟨rest, same⟩ := starts
      rw [← rooted] at same
      exact head_join proper rest same

/-! ## Adding to the last step -/

theorem exists_split {path : List Char} (h : '/' ∈ path) :
    ∃ front name, path = front ++ '/' :: name ∧ '/' ∉ name := by
  obtain ⟨before, after, same, clean⟩ := List.eq_append_cons_of_mem (List.mem_reverse.mpr h)
  refine ⟨after.reverse, before.reverse, ?_, by rwa [List.mem_reverse]⟩
  have back := congrArg List.reverse same
  rw [List.reverse_reverse, List.reverse_append, List.reverse_cons, List.append_assoc,
    List.singleton_append] at back
  exact back

/-- The last step of a path is a name: neither idle nor a step up. -/
def EndsInName (path : List Char) : Prop :=
  ∃ front name, steps path = front ++ [name] ∧ isIdle name = false ∧ name ≠ ['.', '.']

theorem EndsInName.within {base path : String} (some : base ≠ "") (relative : isAbsolute path.toList = false)
    (named : EndsInName path.toList) : EndsInName (within base path).toList := by
  obtain ⟨before, split, -⟩ := within_split some relative
  obtain ⟨front, name, last, rest⟩ := named
  refine ⟨steps before ++ front, name, ?_, rest⟩
  rw [split, steps_append_slash, last, List.append_assoc]

theorem within_append {base path ending : String} (relative : isAbsolute path.toList = false)
    (relative' : isAbsolute (path ++ ending).toList = false) :
    within base (path ++ ending) = within base path ++ ending := by
  unfold within
  rw [relative, relative', if_neg Bool.false_ne_true, if_neg Bool.false_ne_true]
  split
  · rw [String.append_assoc]
  · rw [String.append_assoc, String.append_assoc, String.append_assoc]

theorem steps_append_end {path ending name : List Char} {front : List (List Char)} (clean : '/' ∉ ending)
    (last : steps path = front ++ [name]) : steps (path ++ ending) = front ++ [name ++ ending] := by
  by_cases slash : '/' ∈ path
  · obtain ⟨before, behind, split, tidy⟩ := exists_split slash
    rw [split, steps_append_slash, steps_of_no_slash tidy] at last
    obtain ⟨rfl, same⟩ := List.append_inj' last rfl
    rw [List.singleton_inj] at same
    subst same
    have tidy' : '/' ∉ behind ++ ending := by
      rw [List.mem_append, not_or]
      exact ⟨tidy, clean⟩
    rw [split, List.append_assoc, List.cons_append, steps_append_slash, steps_of_no_slash tidy']
  · have tidy : '/' ∉ path ++ ending := by
      rw [List.mem_append, not_or]
      exact ⟨slash, clean⟩
    rw [steps_of_no_slash slash, ← List.nil_append [path]] at last
    obtain ⟨rfl, same⟩ := List.append_inj' last rfl
    rw [List.singleton_inj] at same
    subst same
    rw [steps_of_no_slash tidy, List.nil_append]

theorem join_cons {rest : List (List Char)} (some : rest ≠ []) (step : List Char) :
    join (step :: rest) = step ++ '/' :: join rest := by
  cases rest with
  | nil => exact absurd rfl some
  | cons => rfl

theorem join_append_end (front : List (List Char)) (name ending : List Char) :
    join (front ++ [name ++ ending]) = join (front ++ [name]) ++ ending := by
  induction front with
  | nil => rfl
  | cons step front ih =>
    rw [List.cons_append, List.cons_append, join_cons (by simp), join_cons (by simp), ih,
      List.append_assoc, List.cons_append]

theorem EndsInName.last {path : List Char} (named : EndsInName path) :
    ∃ before c, path = before ++ [c] ∧ c ≠ '/' := by
  obtain ⟨front, name, last, moves, -⟩ := named
  -- were the path empty or closed by a slash, its last step would be empty
  have full : name ≠ [] := by
    intro none
    rw [none] at moves
    cases moves
  cases path using List.reverseRecOn with
  | nil =>
    rw [steps_of_no_slash List.not_mem_nil, ← List.nil_append [[]]] at last
    exact absurd (List.append_inj' last rfl).2 (by simpa using full.symm)
  | append_singleton before c =>
    refine ⟨before, c, rfl, fun slash => ?_⟩
    rw [slash, steps_append_slash, steps_of_no_slash List.not_mem_nil] at last
    exact absurd (List.append_inj' last rfl).2 (by simpa using full.symm)

/-- What a path keeps in front does not depend on what follows a name. -/
theorem root_append_end {path : List Char} (named : EndsInName path) (ending : List Char) :
    root (path ++ ending) = root path ∧ isAbsolute (path ++ ending) = isAbsolute path := by
  obtain ⟨before, c, rfl, other⟩ := named.last
  rcases before with _ | ⟨a, _ | ⟨b, _ | ⟨d, before⟩⟩⟩
  · simp [root, isAbsolute, other]
  · by_cases ha : a = '/' <;> simp [root, isAbsolute, other, ha]
  · by_cases ha : a = '/' <;> by_cases hb : b = '/' <;> simp [root, isAbsolute, other, ha, hb]
  · by_cases ha : a = '/' <;> by_cases hb : b = '/' <;> by_cases hd : d = '/' <;>
      simp [root, isAbsolute, ha, hb, hd]

/-- An ending that leaves the last step a name is added to the normal form as it is to the path. -/
theorem normalizeChars_append_end {path ending : List Char} (named : EndsInName path) (clean : '/' ∉ ending)
    (long : 2 ≤ ending.length) : normalizeChars (path ++ ending) = normalizeChars path ++ ending := by
  obtain ⟨roots, rooted⟩ := root_append_end named ending
  obtain ⟨front, name, last, moves, notUp⟩ := named
  have full : name ≠ [] := by
    intro none
    rw [none] at moves
    cases moves
  have longer : 2 < (name ++ ending).length := by
    have := List.length_pos_iff.mpr full
    rw [List.length_append]
    omega
  have moves' : isIdle (name ++ ending) = false := by
    rw [Bool.eq_false_iff]
    intro idle
    unfold isIdle at idle
    rw [Bool.or_eq_true, beq_iff_eq, beq_iff_eq] at idle
    rcases idle with none | point
    · rw [none] at longer
      simp at longer
    · rw [point] at longer
      simp at longer
  have notUp' : name ++ ending ≠ ['.', '.'] := by
    intro up
    rw [up] at longer
    simp at longer
  -- the last step is a name with and without the ending, so it is put behind the same steps
  have climbs (absolute : Bool) (before : List (List Char)) {step : List Char} (moves : isIdle step = false)
      (notUp : step ≠ ['.', '.']) : climb absolute before step = step :: before := by
    unfold climb
    rw [moves, if_neg Bool.false_ne_true, if_pos (by simpa using notUp)]
  unfold normalizeChars
  dsimp only
  rw [steps_append_end clean last, last, List.foldl_append, List.foldl_append, rooted, roots]
  dsimp only [List.foldl_cons, List.foldl_nil]
  rw [climbs _ _ moves notUp, climbs _ _ moves' notUp', List.reverse_cons, List.reverse_cons,
    join_append_end, ← List.append_assoc]
  refine orPoint_append (fun none => ?_) ending
  have joined := join_append_end (front.foldl (climb (isAbsolute path)) []).reverse [] name
  rw [List.nil_append] at joined
  rw [joined, List.append_eq_nil_iff, List.append_eq_nil_iff] at none
  exact full none.2.2

/-! ## The part in front of the last slash -/

theorem directory_of_no_slash {path : String} (h : '/' ∉ path.toList) : directory path = "" := by
  have all : path.toList.reverse.dropWhile (· != '/') = [] := by
    rw [List.dropWhile_eq_nil_iff]
    intro c hc
    rw [List.mem_reverse] at hc
    simpa using fun same : c = '/' => h (same ▸ hc)
  unfold directory
  rw [all]
  rfl

/-- What stands in front of the last slash, with that slash. -/
theorem upToSlash_split {front name : List Char} (clean : '/' ∉ name) :
    ((front ++ '/' :: name).reverse.dropWhile (· != '/')).reverse = front ++ ['/'] := by
  have stops : ∀ c ∈ name.reverse, (c != '/') = true := by
    intro c hc
    rw [List.mem_reverse] at hc
    simpa using fun same : c = '/' => clean (same ▸ hc)
  rw [List.reverse_append, List.reverse_cons, List.append_assoc, List.singleton_append,
    List.dropWhile_append_of_pos stops, List.dropWhile_cons_of_neg (by decide), List.reverse_cons,
    List.reverse_reverse]

/-- What is cut off at the end of a path are slashes. -/
theorem dropSlashes_append (path : List Char) :
    ∃ tail, (∀ c ∈ tail, c = '/') ∧ path = dropSlashes path ++ tail := by
  refine ⟨(path.reverse.takeWhile (· == '/')).reverse, fun c hc => ?_, ?_⟩
  · rw [List.mem_reverse] at hc
    simpa using List.mem_takeWhile_imp hc
  · unfold dropSlashes
    rw [← List.reverse_append, List.takeWhile_append_dropWhile, List.reverse_reverse]

/-- The directory of a path leads where the part in front of its last slash leads. It is a text that
is not empty, and it starts at the root if the path does. -/
theorem directory_split {path : String} {front name : List Char}
    (split : path.toList = front ++ '/' :: name) (clean : '/' ∉ name) :
    (∀ here, walked here (directory path).toList = walked here front) ∧
      isAbsolute (directory path).toList = isAbsolute path.toList ∧ directory path ≠ "" := by
  have cut : (path.toList.reverse.dropWhile (· != '/')).reverse = front ++ ['/'] := by
    rw [split]
    exact upToSlash_split clean
  have start : isAbsolute (front ++ '/' :: name) = isAbsolute (front ++ ['/']) := by
    cases front <;> rfl
  unfold directory
  dsimp only
  rw [cut, split, start]
  by_cases slashes : (front ++ ['/']).all (· == '/') = true
  · rw [if_pos slashes, String.toList_ofList]
    refine ⟨fun here => walked_concat_slash here front, rfl, fun none => ?_⟩
    have chars := congrArg String.toList none
    simp at chars
  · rw [if_neg slashes, String.toList_ofList]
    obtain ⟨tail, hslashes, same⟩ := dropSlashes_append (front ++ ['/'])
    -- what is left is not empty, so it starts as the path does
    have some : dropSlashes (front ++ ['/']) ≠ [] := by
      intro none
      rw [none, List.nil_append] at same
      refine slashes ?_
      rw [same, List.all_eq_true]
      intro c hc
      rw [hslashes c hc]
      rfl
    refine ⟨fun here => ?_, ?_, fun none => some ?_⟩
    · rw [walked_dropSlashes, walked_concat_slash]
    · obtain ⟨c, rest, kept⟩ := List.exists_cons_of_ne_nil some
      rw [kept] at same ⊢
      rw [same]
      rfl
    · have chars := congrArg String.toList none
      rwa [String.toList_ofList] at chars

end Path

/-! ## The last step to a file -/

theorem FileTree.follow_of_locate {t : FileTree} {current path : String} {found : List String}
    {bytes : ByteArray} (located : t.locate current path = .ok (.file found bytes)) :
    t.follow [] (stepsOf (Path.within current path)) = .ok (.file found bytes) := by
  unfold FileTree.locate at located
  split at located
  · cases located
  split at located
  · cases located
  exact located

theorem FileTree.walked_of_locate {t : FileTree} {current path : String} {found : List String}
    {bytes : ByteArray} (located : t.locate current path = .ok (.file found bytes)) :
    found = Path.walked [] (Path.within current path).toList :=
  (FileTree.follow_file (follow_of_locate located)).1

/-- Whoever gets to a file has made a last step to it, from a directory. -/
theorem FileTree.follow_file_last {t : FileTree} {front : List String} {last : String} :
    ∀ {here found : List String} {bytes : ByteArray},
      t.follow here (front ++ [last]) = .ok (.file found bytes) →
        found = front.foldl walk here ++ [last] := by
  -- only the last step may come to a file, so every step before it is a directory
  induction front with
  | nil =>
    intro here found bytes h
    rw [List.nil_append, follow] at h
    split at h
    · cases h
    split at h
    · cases h
    split at h
    · cases h
    dsimp only at h
    split at h
    · cases h
    · cases h
      rfl
    · split at h <;> cases h
  | cons step front ih =>
    intro here found bytes h
    rw [List.cons_append, follow] at h
    rw [List.foldl_cons, walk]
    split at h
    · rename_i idle
      rw [if_pos idle]
      exact ih h
    rename_i moves
    rw [if_neg moves]
    split at h
    · rename_i up
      rw [if_pos up]
      exact ih h
    rename_i down
    rw [if_neg down]
    split at h
    · cases h
    dsimp only at h
    split at h
    · exact ih h
    · -- a file is not followed by another step
      rw [if_neg (by simp)] at h
      cases h
    · split at h <;> cases h

namespace Module

/-- The steps from the root to the directory that a path of an import is seen from. -/
def seat (site : Site) (base : Option String) : List String :=
  Path.walked [] (Path.within site.current (startOf site base)).toList

/-- A file that was found is seen from the directory that it is in. -/
theorem seat_directory {site : Site} {full : String} {found : List String} {bytes : ByteArray}
    (absolute : Path.isAbsolute site.current.toList = true)
    (located : site.files.locate site.current full = .ok (.file found bytes)) :
    seat site (some (Path.directory full)) = found.dropLast := by
  have followed := FileTree.follow_of_locate located
  -- where the whole path is cut at a slash with a name behind it, the file is behind the front part
  have last {front name : List Char} (split : (Path.within site.current full).toList = front ++ '/' :: name)
      (clean : '/' ∉ name) : found.dropLast = Path.walked [] front := by
    have steps : FileTree.stepsOf (Path.within site.current full)
        = (Path.steps front).map String.ofList ++ [String.ofList name] := by
      unfold FileTree.stepsOf
      rw [split, Path.steps_append_slash, Path.steps_of_no_slash clean, List.map_append,
        List.map_singleton]
    rw [steps] at followed
    rw [FileTree.follow_file_last followed, List.dropLast_concat]
    rfl
  have some : site.current ≠ "" := by
    intro none
    rw [none] at absolute
    cases absolute
  have home : Path.within site.current site.current = site.current := Path.within_of_isAbsolute absolute
  unfold seat
  by_cases slash : '/' ∈ full.toList
  · obtain ⟨front, name, split, clean⟩ := Path.exists_split slash
    obtain ⟨leads, start, notEmpty⟩ := Path.directory_split split clean
    have from_ : startOf site (Option.some (Path.directory full)) = Path.directory full := by
      unfold startOf
      exact if_neg (by simpa using notEmpty)
    rw [from_]
    by_cases rooted : Path.isAbsolute full.toList = true
    · rw [Path.within_of_isAbsolute (start.trans rooted), leads]
      rw [Path.within_of_isAbsolute rooted] at last
      exact (last split clean).symm
    · rw [Bool.not_eq_true] at rooted
      obtain ⟨before, whole, same⟩ := Path.within_split some rooted
      rw [Path.walked_within some (start.trans rooted) [], leads]
      have cut : (Path.within site.current full).toList = (before ++ '/' :: front) ++ '/' :: name := by
        rw [whole, split, List.append_assoc, List.cons_append]
      rw [last cut clean, Path.walked_append_slash, same]
  · have relative : Path.isAbsolute full.toList = false := by
      rw [Bool.eq_false_iff]
      intro rooted
      obtain ⟨rest, first⟩ : ∃ rest, full.toList = '/' :: rest := by
        unfold Path.isAbsolute at rooted
        rw [beq_iff_eq, List.head?_eq_some_iff] at rooted
        exact rooted
      exact slash (first ▸ List.mem_cons_self)
    obtain ⟨before, whole, same⟩ := Path.within_split some relative
    rw [Path.directory_of_no_slash slash, show startOf site (Option.some "") = site.current from rfl, home,
      last whole slash, same]

theorem startOf_ne_empty {site : Site} (absolute : Path.isAbsolute site.current.toList = true)
    (base : Option String) : startOf site base ≠ "" := by
  have some : site.current ≠ "" := by
    intro none
    rw [none] at absolute
    cases absolute
  unfold startOf
  split
  · split
    · exact some
    · rename_i notEmpty
      simpa using notEmpty
  · exact some

/-- The normal form of a path seen from a base leads where the path leads from the seat of the
base. -/
theorem walked_normalize {site : Site} (absolute : Path.isAbsolute site.current.toList = true)
    (base : Option String) {path : String} (relative : Path.isAbsolute path.toList = false) :
    Path.walked [] (Path.within site.current
        (Path.normalize (Path.within (startOf site base) path))).toList
      = Path.walked (seat site base) path.toList := by
  have start := startOf_ne_empty absolute base
  have current : site.current ≠ "" := startOf_ne_empty absolute none
  have rooted := Path.isAbsolute_within_relative start relative
  have normal : (Path.normalize (Path.within (startOf site base) path)).toList
      = Path.normalizeChars (Path.within (startOf site base) path).toList :=
    String.toList_ofList
  have same : Path.isAbsolute (Path.normalize (Path.within (startOf site base) path)).toList
      = Path.isAbsolute (startOf site base).toList := by
    rw [normal, Path.isAbsolute_normalizeChars, rooted]
  unfold seat
  by_cases from_ : Path.isAbsolute (startOf site base).toList = true
  · rw [Path.within_of_isAbsolute (same.trans from_), Path.within_of_isAbsolute from_, normal,
      Path.walked_normalizeChars fun _ => rfl, Path.walked_within start relative]
  · rw [Bool.not_eq_true] at from_
    -- a relative base is itself seen from the current directory
    rw [Path.walked_within current (same.trans from_), Path.walked_within current from_, normal,
      Path.walked_normalizeChars, Path.walked_within start relative]
    intro yes
    rw [rooted, from_] at yes
    cases yes

/-- The file that a relative path means lies where the path leads from the directory it is seen from,
or where it leads with the usual end. -/
theorem walked_filePath {site : Site} (absolute : Path.isAbsolute site.current.toList = true)
    (base : Option String) {path : String} (relative : Path.isAbsolute path.toList = false)
    (named : Path.EndsInName path.toList) :
    Path.walked [] (Path.within site.current (filePath site (startOf site base) path)).toList
        = Path.walked (seat site base) path.toList ∨
      Path.walked [] (Path.within site.current (filePath site (startOf site base) path)).toList
        = Path.walked (seat site base) (path ++ suffix).toList := by
  have relative' : Path.isAbsolute (path ++ suffix).toList = false := by
    rw [String.toList_append, (Path.root_append_end named _).2, relative]
  have normal : Path.normalize (Path.within (startOf site base) path) ++ suffix
      = Path.normalize (Path.within (startOf site base) (path ++ suffix)) := by
    have named' := Path.EndsInName.within (startOf_ne_empty absolute base) relative named
    rw [Path.within_append relative relative', ← String.toList_inj, Path.normalize, Path.normalize,
      String.toList_append, String.toList_ofList, String.toList_ofList, String.toList_append,
      Path.normalizeChars_append_end named' (by decide) (by decide)]
  unfold filePath
  dsimp only
  split
  · rw [normal]
    exact .inr (walked_normalize absolute base relative')
  · exact .inl (walked_normalize absolute base relative)

/-- A module that is found in a file has the name of that file, and the directory of the path by which
it was found. -/
theorem fromFiles_located {site : Site} {base : Option String} {path : String} {source : ModuleSource}
    (absolute : Path.isAbsolute site.current.toList = true)
    (loaded : fromFiles site base path = .ok (some source)) :
    ∃ full found bytes,
      (Path.expandHome? site.home path).map (filePath site (startOf site base)) = some full ∧
      site.files.locate site.current full = .ok (.file found bytes) ∧
      source.name = (Origin.file found).name ∧ source.directory = some (Path.directory full) := by
  rw [fromFiles_eq] at loaded
  cases meant : (Path.expandHome? site.home path).map (filePath site (startOf site base)) with
  | none =>
    rw [meant] at loaded
    cases loaded
  | some full =>
    rw [meant] at loaded
    dsimp only at loaded
    split at loaded
    · rename_i there
      -- the path is followed once more for its one spelling, and leads to the same file
      obtain ⟨found, bytes, located⟩ := FileTree.locate_of_isFile there
      obtain ⟨name, -, -⟩ := FileTree.canonical_of_locate absolute located
      refine ⟨full, found, bytes, rfl, located, ?_⟩
      split at loaded
      · cases loaded
        exact ⟨name, rfl⟩
      · cases loaded
      · cases loaded
    · cases loaded

/-- A file that an import finds by a relative path lies where the path leads from the directory it is
seen from, or where it leads with the usual end. -/
theorem fromFiles_walked {site : Site} {base : Option String} {path : String} {source : ModuleSource}
    (absolute : Path.isAbsolute site.current.toList = true)
    (relative : Path.isAbsolute path.toList = false) (home : path.toList.head? ≠ some '~')
    (named : Path.EndsInName path.toList) (loaded : fromFiles site base path = .ok (some source)) :
    ∃ found, source.name = (Origin.file found).name ∧
      (found = Path.walked (seat site base) path.toList ∨
        found = Path.walked (seat site base) (path ++ suffix).toList) := by
  obtain ⟨full, found, bytes, meant, located, name, -⟩ := fromFiles_located absolute loaded
  have plain : Path.expandHome? site.home path = some path := by
    unfold Path.expandHome?
    split
    · rename_i rest tilde
      rw [tilde] at home
      exact absurd rfl home
    · rfl
  rw [plain, Option.map_some, Option.some.injEq] at meant
  refine ⟨found, name, ?_⟩
  rw [FileTree.walked_of_locate located, ← meant]
  exact walked_filePath absolute base relative named

theorem seat_congr {site site' : Site} (same : site'.current = site.current) (base : Option String) :
    seat site' base = seat site base := by
  have start : startOf site' base = startOf site base := by
    unfold startOf
    rw [same]
  unfold seat
  rw [start, same]

theorem fromLarder_directory {path : String} {source : ModuleSource}
    (loaded : fromLarder path = .ok (some source)) :
    ∃ name, (dropStart? larderRoot path).map (dropEnd suffix) = some name ∧ source.directory = none := by
  unfold fromLarder at loaded
  split at loaded
  · cases loaded
  · rename_i name found
    refine ⟨name, found, ?_⟩
    split at loaded
    · cases loaded
    split at loaded
    · cases loaded
    split at loaded
    · cases loaded
    rw [Except.ok.injEq, Option.map_eq_some_iff] at loaded
    obtain ⟨text, -, rfl⟩ := loaded
    rfl

/-- The directory of a module that is loaded: none if it is a bundled one, else the one that its file
is in. -/
theorem load_directory {loaders : List Loader} {site : Site} {base : Option String} {path : String}
    {source : ModuleSource} (absolute : Path.isAbsolute site.current.toList = true)
    (loaded : load loaders site base path = .ok (some source)) :
    (∃ name, origin? loaders site base path = some (.bundled name) ∧ source.directory = none) ∨
      ∃ steps dir, origin? loaders site base path = some (.file steps) ∧
        source.directory = some dir ∧ seat site (some dir) = steps.dropLast := by
  unfold load at loaded
  unfold origin?
  cases claimed : loaders.find? (Loader.claims path) with
  | none =>
    rw [claimed] at loaded
    cases loaded
  | some loader =>
    rw [claimed] at loaded
    cases loader with
    | larder =>
      obtain ⟨name, meant, none⟩ := fromLarder_directory loaded
      refine .inl ⟨name, ?_, none⟩
      rw [Option.bind_some, Loader.origin?, meant, Option.map_some]
    | files =>
      obtain ⟨full, found, bytes, meant, located, -, directory⟩ := fromFiles_located absolute loaded
      refine .inr ⟨found, _, ?_, directory, seat_directory absolute located⟩
      rw [Option.bind_some, Loader.origin?, meant]
      dsimp only
      rw [located]
    -- a loader that denies its paths never has a module
    | deny paths =>
      unfold Loader.load at loaded
      dsimp only at loaded
      split at loaded <;> cases loaded

end Module

end ContractScript
