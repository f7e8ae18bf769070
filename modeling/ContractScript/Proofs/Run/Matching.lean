/-
Two stores that hold the same, up to a renaming.

A renaming matches cells of two stores: lists with lists, maps with maps, functions with
functions, scopes with scopes. The stores are alike if matched cells hold what is alike.
Nothing is said about cells without a match; a run that has allocated more than the other
has some. Cells are matched in the order in which they were made, so looking at them gives
the same answers on both sides, and writing what is alike to matched cells keeps the stores
alike. Making a cell on both sides adds a match to the renaming.

Where references have to be called the same, the renaming is the identity and the stores
have the same cells.
-/
import ContractScript.Proofs.Value.Renaming
import ContractScript.Machine

set_option autoImplicit false

namespace ContractScript

/-! ## Cells -/

/-- Cells of two arrays are matched, in order, and what they hold is related. -/
structure Matched {α : Type} (exact : Bool) (ids : Nat → Nat → Prop) (good : α → α → Prop)
    (xs ys : Array α) : Prop where
  found : ∀ i j, ids i j → ∃ a b, xs[i]? = some a ∧ ys[j]? = some b ∧ good a b
  ordered : ∀ i j k l, ids i j → ids k l → compare i k = compare j l
  named : exact = true → xs.size = ys.size ∧ ∀ i, i < xs.size → ids i i

/-- A match more. -/
def withMatch (ids : Nat → Nat → Prop) (i j : Nat) : Nat → Nat → Prop :=
  fun a b => ids a b ∨ (a = i ∧ b = j)

namespace Matched

variable {α : Type} {exact : Bool} {ids : Nat → Nat → Prop} {good good' : α → α → Prop}
  {xs ys : Array α}

theorem lt_size (h : Matched exact ids good xs ys) {i j : Nat} (same : ids i j) :
    i < xs.size ∧ j < ys.size := by
  obtain ⟨a, b, left, right, -⟩ := h.found i j same
  exact ⟨(Array.getElem?_eq_some_iff.mp left).1, (Array.getElem?_eq_some_iff.mp right).1⟩

/-- Two cells are the same on one side exactly if they are on the other. -/
theorem eq_iff (h : Matched exact ids good xs ys) {i j k l : Nat} (same : ids i j)
    (other : ids k l) : i = k ↔ j = l := by
  rw [← Nat.compare_eq_eq, ← Nat.compare_eq_eq, h.ordered i j k l same other]

theorem lt_iff (h : Matched exact ids good xs ys) {i j k l : Nat} (same : ids i j)
    (other : ids k l) : i < k ↔ j < l := by
  rw [← Nat.compare_eq_lt, ← Nat.compare_eq_lt, h.ordered i j k l same other]

theorem mono (h : Matched exact ids good xs ys) (weaker : ∀ a b, good a b → good' a b) :
    Matched exact ids good' xs ys where
  found i j same := by
    obtain ⟨a, b, left, right, holds⟩ := h.found i j same
    exact ⟨a, b, left, right, weaker a b holds⟩
  ordered := h.ordered
  named := h.named

/-- What matched cells hold, or what stands for a missing cell. -/
theorem getD (h : Matched exact ids good xs ys) {i j : Nat} (same : ids i j) (default : α) :
    good (xs.getD i default) (ys.getD j default) := by
  obtain ⟨a, b, left, right, holds⟩ := h.found i j same
  rw [Array.getD_eq_getD_getElem?, Array.getD_eq_getD_getElem?, left, right]
  exact holds

/-- A cell that is made on both sides becomes a match. -/
theorem push (h : Matched exact ids good xs ys) {a b : α} (new : good a b) :
    Matched exact (withMatch ids xs.size ys.size) good (xs.push a) (ys.push b) where
  found i j same := by
    rcases same with old | ⟨rfl, rfl⟩
    · obtain ⟨low, low'⟩ := h.lt_size old
      obtain ⟨c, d, left, right, holds⟩ := h.found i j old
      refine ⟨c, d, ?_, ?_, holds⟩
      · rw [Array.getElem?_push, if_neg (Nat.ne_of_lt low), left]
      · rw [Array.getElem?_push, if_neg (Nat.ne_of_lt low'), right]
    · exact ⟨a, b, Array.getElem?_push_size, Array.getElem?_push_size, new⟩
  ordered i j k l same other := by
    -- the new cells come after all others
    rcases same with old | ⟨rfl, rfl⟩ <;> rcases other with old' | ⟨rfl, rfl⟩
    · exact h.ordered i j k l old old'
    · obtain ⟨low, low'⟩ := h.lt_size old
      rw [Nat.compare_eq_lt.mpr low, Nat.compare_eq_lt.mpr low']
    · obtain ⟨low, low'⟩ := h.lt_size old'
      rw [Nat.compare_eq_gt.mpr low, Nat.compare_eq_gt.mpr low']
    · rw [Nat.compare_eq_eq.mpr rfl, Nat.compare_eq_eq.mpr rfl]
  named on := by
    obtain ⟨sizes, all⟩ := h.named on
    refine ⟨by rw [Array.size_push, Array.size_push, sizes], fun i low => ?_⟩
    rw [Array.size_push] at low
    rcases Nat.lt_succ_iff_lt_or_eq.mp low with old | rfl
    · exact .inl (all i old)
    · exact .inr ⟨rfl, sizes⟩

/-- Matched cells are changed in ways that keep what they hold related. -/
theorem modify (h : Matched exact ids good xs ys) {i j : Nat} (same : ids i j) {f g : α → α}
    (keeps : ∀ a b, good a b → good (f a) (g b)) :
    Matched exact ids good (xs.modify i f) (ys.modify j g) where
  found k l other := by
    obtain ⟨a, b, left, right, holds⟩ := h.found k l other
    rw [Array.getElem?_modify, Array.getElem?_modify, left, right]
    -- a match has the changed cell on both sides or on neither
    by_cases here : i = k
    · rw [if_pos here, if_pos ((h.eq_iff same other).mp here)]
      exact ⟨f a, g b, rfl, rfl, keeps a b holds⟩
    · rw [if_neg here, if_neg (fun there => here ((h.eq_iff same other).mpr there))]
      exact ⟨a, b, rfl, rfl, holds⟩
  ordered := h.ordered
  named := by
    rw [Array.size_modify, Array.size_modify]
    exact h.named

/-- Cells that only one side has do not count, unless the names do. -/
theorem grow (h : Matched exact ids good xs ys) (free : exact = false) {xs' ys' : Array α}
    (left : ∀ i, i < xs.size → xs'[i]? = xs[i]?) (right : ∀ j, j < ys.size → ys'[j]? = ys[j]?) :
    Matched exact ids good xs' ys' where
  found i j same := by
    obtain ⟨low, low'⟩ := h.lt_size same
    rw [left i low, right j low']
    exact h.found i j same
  ordered := h.ordered
  named on := by
    rw [free] at on
    cases on

end Matched

/-! ## Stores -/

/-- The line that a check writes when it does not hold. -/
def warningText (message : Option String) (place : Place) : String :=
  withMessage "Warning" message ++ " [" ++ place.text ++ "]"

/-- What two runs are compared under: how far places may differ, what the statements may be, whether
references are called the same, how far events may differ, and what had been observed on the two
sides before the comparison starts. -/
structure Terms where
  place : Place → Place → Prop
  mode : Mode
  exact : Bool
  event : Event → Event → Prop
  earlier : List Event
  earlier' : List Event
  refl : ∀ p, place p p
  sameEvent : ∀ e, event e e
  warning : ∀ message p p', place p p' →
    event (.effect .error (warningText message p)) (.effect .error (warningText message p'))
  renames : mode = .erasing → exact = false

/-- A warning says the same at the same place. -/
theorem Terms.sameWarning (message : Option String) (p p' : Place) (same : p = p') :
    Event.effect .error (warningText message p) = .effect .error (warningText message p') :=
  congrArg (fun p => Event.effect .error (warningText message p)) same

instance (T : Terms) : Std.Refl T.place := ⟨T.refl⟩

/-- Functions with the same declaration, declared in scopes that stand for each other. -/
structure Closure.Like (T : Terms) (ρ : Renaming) (c c' : Closure) : Prop where
  signature : c.signature.Like T.place T.mode c'.signature
  body : List.Forall₂ (Stmt.Like T.place T.mode) c.body c'.body
  scope : ρ.scopes c.scope c'.scope

/-- Scopes with the same names, which mean what is alike. -/
structure Scope.Like (ρ : Renaming) (c c' : Scope) : Prop where
  bindings : c.bindings.Like Eq (Value.Like ρ) c'.bindings
  spaces : c.spaces.Like Eq ρ.scopes c'.spaces
  enclosing : Option.Rel ρ.scopes c.enclosing c'.enclosing

/-- Stores whose matched cells hold what is alike. -/
structure Store.Like (T : Terms) (ρ : Renaming) (s s' : Store) : Prop where
  lists : Matched T.exact ρ.lists (fun xs ys => List.Forall₂ (Value.Like ρ) xs.toList ys.toList)
    s.lists s'.lists
  maps : Matched T.exact ρ.maps (OrderedMap.Like (Key.Like ρ) (Entry.Like ρ)) s.maps s'.maps
  functions : Matched T.exact ρ.functions (Closure.Like T ρ) s.functions s'.functions
  scopes : Matched T.exact ρ.scopes (Scope.Like ρ) s.scopes s'.scopes

section Growth

variable {T : Terms} {ρ σ : Renaming}

theorem Closure.Like.mono (h : ρ ≤ σ) {c c' : Closure} (like : c.Like T ρ c') : c.Like T σ c' :=
  ⟨like.signature, like.body, h.scopes _ _ like.scope⟩

theorem optionRel_mono {α β : Type} {P Q : α → β → Prop} (weaker : ∀ a b, P a b → Q a b)
    {x : Option α} {y : Option β} (h : Option.Rel P x y) : Option.Rel Q x y := by
  cases h with
  | none => exact .none
  | some holds => exact .some (weaker _ _ holds)

theorem Scope.Like.mono (h : ρ ≤ σ) {c c' : Scope} (like : c.Like ρ c') : c.Like σ c' where
  bindings := like.bindings.mono (fun _ _ key => key) fun _ _ value => value.mono h
  spaces := like.spaces.mono (fun _ _ key => key) h.scopes
  enclosing := optionRel_mono h.scopes like.enclosing

end Growth

namespace Store

variable {T : Terms} {ρ : Renaming} {s s' : Store}

/-! ## Making cells -/

/-- A renaming with a match more for lists. -/
def renamingList (ρ : Renaming) (s s' : Store) : Renaming :=
  { ρ with lists := withMatch ρ.lists s.lists.size s'.lists.size }

/-- A renaming with a match more for maps. -/
def renamingMap (ρ : Renaming) (s s' : Store) : Renaming :=
  { ρ with maps := withMatch ρ.maps s.maps.size s'.maps.size }

/-- A renaming with a match more for functions. -/
def renamingFunction (ρ : Renaming) (s s' : Store) : Renaming :=
  { ρ with functions := withMatch ρ.functions s.functions.size s'.functions.size }

/-- A renaming with a match more for scopes. -/
def renamingScope (ρ : Renaming) (s s' : Store) : Renaming :=
  { ρ with scopes := withMatch ρ.scopes s.scopes.size s'.scopes.size }

theorem le_renamingList (ρ : Renaming) (s s' : Store) : ρ ≤ renamingList ρ s s' :=
  ⟨fun _ _ h => .inl h, fun _ _ h => h, fun _ _ h => h, fun _ _ h => h⟩

theorem le_renamingMap (ρ : Renaming) (s s' : Store) : ρ ≤ renamingMap ρ s s' :=
  ⟨fun _ _ h => h, fun _ _ h => .inl h, fun _ _ h => h, fun _ _ h => h⟩

theorem le_renamingFunction (ρ : Renaming) (s s' : Store) : ρ ≤ renamingFunction ρ s s' :=
  ⟨fun _ _ h => h, fun _ _ h => h, fun _ _ h => .inl h, fun _ _ h => h⟩

theorem le_renamingScope (ρ : Renaming) (s s' : Store) : ρ ≤ renamingScope ρ s s' :=
  ⟨fun _ _ h => h, fun _ _ h => h, fun _ _ h => h, fun _ _ h => .inl h⟩

section Renamed

variable {σ : Renaming} (h : s.Like T ρ s') (grown : ρ ≤ σ)
include h grown

/-! What the cells hold is alike under a renaming that has grown as well. The matches are those of the
old renaming, so that a new cell can be added to them. -/

theorem Like.listsUnder :
    Matched T.exact ρ.lists (fun xs ys => List.Forall₂ (Value.Like σ) xs.toList ys.toList) s.lists
      s'.lists :=
  h.lists.mono fun _ _ items => items.imp fun _ _ value => value.mono grown

theorem Like.mapsUnder :
    Matched T.exact ρ.maps (OrderedMap.Like (Key.Like σ) (Entry.Like σ)) s.maps s'.maps :=
  h.maps.mono fun _ _ content =>
    content.mono (fun _ _ key => key.mono grown) fun _ _ entry => entry.mono grown

theorem Like.functionsUnder :
    Matched T.exact ρ.functions (Closure.Like T σ) s.functions s'.functions :=
  h.functions.mono fun _ _ closure => closure.mono grown

theorem Like.scopesUnder : Matched T.exact ρ.scopes (Scope.Like σ) s.scopes s'.scopes :=
  h.scopes.mono fun _ _ scope => scope.mono grown

end Renamed

theorem Like.newList (h : s.Like T ρ s') {xs ys : Array Value}
    (items : List.Forall₂ (Value.Like ρ) xs.toList ys.toList) :
    (s.newList xs).2.Like T (renamingList ρ s s') (s'.newList ys).2 := by
  have grown := le_renamingList ρ s s'
  exact
    { lists := (h.listsUnder grown).push (items.imp fun _ _ value => value.mono grown)
      maps := h.mapsUnder grown
      functions := h.functionsUnder grown
      scopes := h.scopesUnder grown }

theorem Like.newMap (h : s.Like T ρ s') {content content' : OrderedMap Key Entry}
    (entries : content.Like (Key.Like ρ) (Entry.Like ρ) content') :
    (s.newMap content).2.Like T (renamingMap ρ s s') (s'.newMap content').2 := by
  have grown := le_renamingMap ρ s s'
  exact
    { lists := h.listsUnder grown
      maps := (h.mapsUnder grown).push
        (entries.mono (fun _ _ key => key.mono grown) fun _ _ entry => entry.mono grown)
      functions := h.functionsUnder grown
      scopes := h.scopesUnder grown }

theorem Like.newFunction (h : s.Like T ρ s') {c c' : Closure} (closure : c.Like T ρ c') :
    (s.newFunction c).2.Like T (renamingFunction ρ s s') (s'.newFunction c').2 := by
  have grown := le_renamingFunction ρ s s'
  exact
    { lists := h.listsUnder grown
      maps := h.mapsUnder grown
      functions := (h.functionsUnder grown).push (closure.mono grown)
      scopes := h.scopesUnder grown }

/-- Scopes that are alike are added on both sides. -/
theorem Like.pushScope (h : s.Like T ρ s') {c c' : Scope} (scope : c.Like ρ c') :
    Store.Like T (renamingScope ρ s s') { s with scopes := s.scopes.push c }
      { s' with scopes := s'.scopes.push c' } := by
  have grown := le_renamingScope ρ s s'
  exact
    { lists := h.listsUnder grown
      maps := h.mapsUnder grown
      functions := h.functionsUnder grown
      scopes := (h.scopesUnder grown).push (scope.mono grown) }

theorem Like.newScope (h : s.Like T ρ s') {outer outer' : ScopeId} (around : ρ.scopes outer outer') :
    (s.newScope (some outer)).2.Like T (renamingScope ρ s s') (s'.newScope (some outer')).2 :=
  h.pushScope ⟨OrderedMap.like_empty, OrderedMap.like_empty, .some around⟩

theorem like_nativeBindings (ρ : Renaming) (natives : List Native) :
    (nativeBindings natives).Like Eq (Value.Like ρ) (nativeBindings natives) := by
  refine OrderedMap.like_ofList OrderedMap.agrees_eq ?_
  rw [List.forall₂_map_left_iff, List.forall₂_map_right_iff, List.forall₂_same]
  exact fun f _ => .mk rfl (.native f)

theorem Like.newRoot (h : s.Like T ρ s') (natives : List Native) :
    (s.newRoot natives).2.Like T (renamingScope ρ s s') (s'.newRoot natives).2 :=
  h.pushScope ⟨like_nativeBindings ρ natives, OrderedMap.like_empty, .none⟩

/-! ## Changing cells -/

theorem Like.push (h : s.Like T ρ s') {id id' : ListId} (same : ρ.lists id id') {v v' : Value}
    (value : v.Like ρ v') : (s.push id v).Like T ρ (s'.push id' v') where
  lists := h.lists.modify (f := (·.push v)) (g := (·.push v')) same fun xs ys items => by
    rw [Array.toList_push, Array.toList_push]
    exact List.rel_append items (.cons value .nil)
  maps := h.maps
  functions := h.functions
  scopes := h.scopes

/-- Keys that are alike are the same keys, in stores that are alike. -/
theorem Like.agrees (h : s.Like T ρ s') : OrderedMap.Agrees (Key.Like ρ) :=
  fun _ _ _ _ key other => key.beq h.functions.ordered other

theorem Like.put (h : s.Like T ρ s') {id id' : MapId} (same : ρ.maps id id') {k k' : Key}
    (key : k.Like ρ k') {e e' : Entry} (entry : e.Like ρ e') :
    (s.put id k e).Like T ρ (s'.put id' k' e') where
  lists := h.lists
  maps := h.maps.modify (f := (·.insert k e)) (g := (·.insert k' e')) same fun _ _ content =>
    content.insert h.agrees key entry
  functions := h.functions
  scopes := h.scopes

theorem Like.define (h : s.Like T ρ s') {id id' : ScopeId} (same : ρ.scopes id id') (name : String)
    {v v' : Value} (value : v.Like ρ v') : (s.define id name v).Like T ρ (s'.define id' name v') where
  lists := h.lists
  maps := h.maps
  functions := h.functions
  scopes := h.scopes.modify (f := fun c => { c with bindings := c.bindings.insert name v })
    (g := fun c => { c with bindings := c.bindings.insert name v' }) same fun _ _ scope =>
    ⟨scope.bindings.insert OrderedMap.agrees_eq rfl value, scope.spaces, scope.enclosing⟩

theorem Like.defineSpace (h : s.Like T ρ s') {id id' : ScopeId} (same : ρ.scopes id id')
    (name : String) {target target' : ScopeId} (space : ρ.scopes target target') :
    (s.defineSpace id name target).Like T ρ (s'.defineSpace id' name target') where
  lists := h.lists
  maps := h.maps
  functions := h.functions
  scopes := h.scopes.modify (f := fun c => { c with spaces := c.spaces.insert name target })
    (g := fun c => { c with spaces := c.spaces.insert name target' }) same fun _ _ scope =>
    ⟨scope.bindings, scope.spaces.insert OrderedMap.agrees_eq rfl space, scope.enclosing⟩

/-! ## Looking at cells -/

theorem Like.items (h : s.Like T ρ s') {id id' : ListId} (same : ρ.lists id id') :
    List.Forall₂ (Value.Like ρ) (s.items id).toList (s'.items id').toList :=
  h.lists.getD same #[]

theorem Like.content (h : s.Like T ρ s') {id id' : MapId} (same : ρ.maps id id') :
    (s.content id).Like (Key.Like ρ) (Entry.Like ρ) (s'.content id') :=
  h.maps.getD same .empty

theorem Like.closure? (h : s.Like T ρ s') {id id' : FunctionId} (same : ρ.functions id id') :
    ∃ c c', s.closure? id = some c ∧ s'.closure? id' = some c' ∧ c.Like T ρ c' :=
  h.functions.found id id' same

theorem Like.scope (h : s.Like T ρ s') {id id' : ScopeId} (same : ρ.scopes id id') :
    (s.scope id).Like ρ (s'.scope id') :=
  h.scopes.getD same _

/-- Walking outward from scopes that stand for each other finds answers that are related, if the
scopes on the way give such answers. -/
theorem Like.findOutward {α : Type} {Q : α → α → Prop} (h : s.Like T ρ s')
    {ask ask' : ScopeId → Scope → Option α}
    (answers : ∀ i j, ρ.scopes i j → Option.Rel Q (ask i (s.scope i)) (ask' j (s'.scope j))) :
    ∀ {id id' : ScopeId}, ρ.scopes id id' →
      Option.Rel Q (s.findOutward ask id) (s'.findOutward ask' id') := by
  intro id
  induction id using Nat.strongRecOn with
  | ind id ih =>
    intro id' same
    rw [Store.findOutward, Store.findOutward]
    have answer := answers id id' same
    generalize ask id (s.scope id) = r, ask' id' (s'.scope id') = r' at answer
    cases answer with
    | some holds => exact .some holds
    | none =>
      have around := (h.scope same).enclosing
      generalize (s.scope id).enclosing = e, (s'.scope id').enclosing = e' at around
      cases around with
      | none => exact .none
      | @some outer outer' further =>
        -- cells are matched in order, so the walk goes on on both sides or on neither
        dsimp only
        by_cases older : outer < id
        · rw [if_pos older, if_pos ((h.scopes.lt_iff further same).mp older)]
          exact ih outer older further
        · rw [if_neg older, if_neg fun lt => older ((h.scopes.lt_iff further same).mpr lt)]
          exact .none

theorem Like.value? (h : s.Like T ρ s') {id id' : ScopeId} (same : ρ.scopes id id') (name : String) :
    Option.Rel (Value.Like ρ) (s.value? id name) (s'.value? id' name) :=
  h.findOutward (fun _ _ here => (h.scope here).bindings.get? OrderedMap.agrees_eq rfl) same

theorem Like.space? (h : s.Like T ρ s') {id id' : ScopeId} (same : ρ.scopes id id') (name : String) :
    Option.Rel ρ.scopes (s.space? id name) (s'.space? id' name) :=
  h.findOutward (fun _ _ here => (h.scope here).spaces.get? OrderedMap.agrees_eq rfl) same

theorem Like.owner? (h : s.Like T ρ s') {id id' : ScopeId} (same : ρ.scopes id id') (name : String) :
    Option.Rel ρ.scopes (s.owner? id name) (s'.owner? id' name) := by
  refine h.findOutward (fun i j here => ?_) same
  rw [(h.scope here).bindings.contains OrderedMap.agrees_eq rfl]
  split
  · exact .some here
  · exact .none

/-- Namespaces with the same names lead to scopes that stand for each other, or the same one of them
is missing. -/
theorem Like.spaceOf (h : s.Like T ρ s') {spaces spaces' : List Lexeme}
    (names : List.Forall₂ (Lexeme.Like T.place) spaces spaces') :
    ∀ {id id' : ScopeId}, ρ.scopes id id' →
      (∃ missing missing', s.spaceOf id spaces = .error missing ∧
        s'.spaceOf id' spaces' = .error missing' ∧ missing.Like T.place missing') ∨
      ∃ target target', s.spaceOf id spaces = .ok target ∧ s'.spaceOf id' spaces' = .ok target' ∧
        ρ.scopes target target' := by
  induction names with
  | nil => exact fun same => .inr ⟨_, _, rfl, rfl, same⟩
  | @cons name name' rest rest' first _ ih =>
    intro id id' same
    rw [Store.spaceOf, Store.spaceOf, ← first.text]
    have found := h.space? same name.text
    generalize s.space? id name.text = r, s'.space? id' name.text = r' at found
    cases found with
    | none => exact .inl ⟨_, _, rfl, rfl, first⟩
    | some next => exact ih next

/-! ## Questions about values -/

/-- What is asked of every item gives related lists of answers, or none on either side. -/
theorem optionRel_mapM {α α' β β' : Type} {P : α → α' → Prop} {Q : β → β' → Prop}
    {f : α → Option β} {g : α' → Option β'} (answers : ∀ a b, P a b → Option.Rel Q (f a) (g b))
    {xs : List α} {ys : List α'} (like : List.Forall₂ P xs ys) :
    Option.Rel (List.Forall₂ Q) (xs.mapM f) (ys.mapM g) := by
  induction like with
  | nil => exact .some .nil
  | @cons a b xs ys first _ ih =>
    rw [List.mapM_cons, List.mapM_cons]
    have answer := answers a b first
    generalize f a = r, g b = r' at answer
    cases answer with
    | none => exact .none
    | some holds =>
      generalize xs.mapM f = rs, ys.mapM g = rs' at ih
      cases ih with
      | none => exact .none
      | some rest => exact .some (.cons holds rest)

theorem optionRel_map {α α' β β' : Type} {P : α → α' → Prop} {Q : β → β' → Prop} {f : α → β}
    {g : α' → β'} (holds : ∀ a b, P a b → Q (f a) (g b)) {x : Option α} {y : Option α'}
    (h : Option.Rel P x y) : Option.Rel Q (x.map f) (y.map g) := by
  cases h with
  | none => exact .none
  | some like => exact .some (holds _ _ like)

theorem eq_of_optionRel {α : Type} {x y : Option α} (h : Option.Rel Eq x y) : x = y := by
  cases h with
  | none => rfl
  | some same => rw [same]

theorem optionRel_of_eq {α : Type} {x y : Option α} (h : x = y) : Option.Rel Eq x y := by
  subst h
  cases x with
  | none => exact .none
  | some a => exact .some rfl

/-- The same answers to what is asked of every item. -/
theorem mapM_eq {α α' β : Type} {P : α → α' → Prop} {f : α → Option β} {g : α' → Option β}
    (answers : ∀ a b, P a b → f a = g b) {xs : List α} {ys : List α'}
    (like : List.Forall₂ P xs ys) : xs.mapM f = ys.mapM g := by
  have related := optionRel_mapM (Q := Eq) (fun a b holds => optionRel_of_eq (answers a b holds)) like
  rw [List.forall₂_eq_eq_eq] at related
  exact eq_of_optionRel related

theorem Like.functionText (h : s.Like T ρ s') {id id' : FunctionId} (same : ρ.functions id id') :
    s.functionText id = s'.functionText id' := by
  obtain ⟨c, c', found, found', like⟩ := h.closure? same
  unfold Store.functionText
  rw [found, found']
  dsimp only
  rw [like.signature.name.text]

/-- Values that are alike are shown in the same way. -/
theorem Like.show? (h : s.Like T ρ s') (depth : Nat) : ∀ (nested : Bool) {v v' : Value},
    v.Like ρ v' → s.show? depth nested v = s'.show? depth nested v' := by
  induction depth with
  | zero => exact fun _ _ _ _ => rfl
  | succ depth ih =>
    intro nested v v' like
    cases like with
    | nil | num | text | native => rfl
    | bool b => cases b <;> rfl
    | list same =>
      rw [Store.show?, Store.show?]
      rw [mapM_eq (fun _ _ value => ih true value) (h.items same)]
    | map same =>
      rw [Store.show?, Store.show?]
      refine congrArg (Option.map _) (mapM_eq (P := Entry.Like ρ) (fun e e' entry => ?_)
        (h.content same).values)
      rw [ih true entry.key, ih true entry.value]
    | function same =>
      rw [Store.show?, Store.show?, h.functionText same]

/-- Values that are alike have keys that are alike. -/
theorem Like.key? (h : s.Like T ρ s') (depth : Nat) : ∀ {v v' : Value}, v.Like ρ v' →
    Option.Rel (Key.Like ρ) (s.key? depth v) (s'.key? depth v') := by
  induction depth with
  | zero => exact fun _ => .none
  | succ depth ih =>
    intro v v' like
    cases like with
    | nil => exact .some .nil
    | bool b => exact .some (.bool b)
    | num x => exact .some (.num _)
    | text t => exact .some (.text t)
    | native f => exact .some (.native f)
    | function same => exact .some (.function same)
    | list same =>
      rw [Store.key?, Store.key?]
      exact optionRel_map (fun _ _ items => .list items)
        (optionRel_mapM (fun _ _ value => ih value) (h.items same))
    | map same =>
      rw [Store.key?, Store.key?]
      -- the pairs are sorted, and keys that are alike are sorted in the same way
      refine optionRel_map (P := List.Forall₂ (PairLike (Key.Like ρ) (Key.Like ρ)))
        (fun _ _ pairs => Key.like_ofPairs h.functions.ordered pairs)
        (optionRel_mapM ?_ (h.content same).entries)
      rintro _ _ ⟨key, entry⟩
      exact optionRel_map (fun _ _ other => .mk key other) (ih entry.value)

theorem allPairs?_same {α : Type} {P : α → α → Prop} {test test' : α → α → Option Bool}
    (same : ∀ a a' b b', P a a' → P b b' → test a b = test' a' b') {ps ps' : List (α × α)}
    (like : List.Forall₂ (PairLike P P) ps ps') : allPairs? test ps = allPairs? test' ps' := by
  induction like with
  | nil => rfl
  | cons first _ ih =>
    obtain ⟨left, right⟩ := first
    rw [allPairs?, allPairs?, same _ _ _ _ left right, ih]

theorem forall₂_zip {α : Type} {P : α → α → Prop} {xs xs' : List α} (like : List.Forall₂ P xs xs') :
    ∀ {ys ys' : List α}, List.Forall₂ P ys ys' →
      List.Forall₂ (PairLike P P) (xs.zip ys) (xs'.zip ys') := by
  induction like with
  | nil => exact fun _ => .nil
  | cons first _ ih =>
    intro ys ys' other
    cases other with
    | nil => exact .nil
    | cons second rest => exact .cons (.mk first second) (ih rest)

theorem all_eq {α β : Type} {P : α → β → Prop} {f : α → Bool} {g : β → Bool}
    (same : ∀ a b, P a b → f a = g b) {xs : List α} {ys : List β} (like : List.Forall₂ P xs ys) :
    xs.all f = ys.all g := by
  induction like with
  | nil => rfl
  | cons first _ ih => rw [List.all_cons, List.all_cons, same _ _ first, ih]

section Contents

variable {a a' b b' : OrderedMap Key Entry} (h : s.Like T ρ s')
  (left : a.Like (Key.Like ρ) (Entry.Like ρ) a') (right : b.Like (Key.Like ρ) (Entry.Like ρ) b')
include h left right

theorem Like.sameKeys : Store.sameKeys a b = Store.sameKeys a' b' := by
  unfold Store.sameKeys
  rw [left.size, right.size, all_eq (fun _ _ key => right.contains h.agrees key) left.keys]

theorem Like.valuePairs :
    List.Forall₂ (PairLike (Value.Like ρ) (Value.Like ρ)) (Store.valuePairs a b)
      (Store.valuePairs a' b') := by
  refine List.rel_filterMap (fun _ _ entry => ?_) left.entries
  obtain ⟨key, first⟩ := entry
  exact optionRel_map (fun _ _ second => .mk first.value second.value) (right.get? h.agrees key)

end Contents

/-- Values that are alike are equal to the same values. -/
theorem Like.equal? (h : s.Like T ρ s') (depth : Nat) : ∀ {a a' b b' : Value}, a.Like ρ a' →
    b.Like ρ b' → s.equal? depth a b = s'.equal? depth a' b' := by
  induction depth with
  | zero => exact fun _ _ => rfl
  | succ depth ih =>
    intro a a' b b' left right
    -- one level down the items are alike, so the answers are the same
    have answers := fun (a a' b b' : Value) (left : a.Like ρ a') (right : b.Like ρ b') => ih left right
    cases left with
    | nil | bool | num | text | native => cases right <;> rfl
    | list same =>
      cases right with
      | list other =>
        have items := h.items same
        have items' := h.items other
        have sizes := items.length_eq
        have sizes' := items'.length_eq
        rw [Array.length_toList, Array.length_toList] at sizes sizes'
        rw [Store.equal?, Store.equal?]
        rw [sizes, sizes', allPairs?_same answers (forall₂_zip items items')]
      | _ => rfl
    | map same =>
      cases right with
      | map other =>
        have content := h.content same
        have content' := h.content other
        rw [Store.equal?, Store.equal?]
        rw [h.sameKeys content content', allPairs?_same answers (h.valuePairs content content')]
      | _ => rfl
    | function same =>
      cases right with
      | function other =>
        rw [Store.equal?, Store.equal?]
        refine congrArg some ?_
        rw [Bool.eq_iff_iff, beq_iff_eq, beq_iff_eq]
        exact h.functions.eq_iff same other
      | _ => rfl

end Store

end ContractScript
