/-
The same but for places.

Two runs that go in step and call their references the same end in the same state, but
for the places that functions keep beside their nodes: the lists, the maps and the scopes
are equal. This is what alike comes to when the renaming is the identity, and it can be
said without one. What a program prints is the same as well; a report on tests, which
shows lines, comes after all that is printed.
-/
import ContractScript.Proofs.Run.Simulation

set_option autoImplicit false

namespace ContractScript

/-! ## References that are called the same -/

namespace Matched

variable {α : Type} {ids : Nat → Nat → Prop} {good : α → α → Prop} {xs ys : Array α}

theorem eq_of_exact (h : Matched true ids good xs ys) {i j : Nat} (same : ids i j) : i = j :=
  ((h.eq_iff same ((h.named rfl).2 i (h.lt_size same).1)).mp rfl).symm

/-- All cells are matched, each with the one of the same name. -/
theorem forall₂ (h : Matched true ids good xs ys) : List.Forall₂ good xs.toList ys.toList := by
  obtain ⟨sizes, all⟩ := h.named rfl
  refine List.forall₂_iff_get.mpr ⟨sizes, fun i low low' => ?_⟩
  obtain ⟨a, b, left, right, holds⟩ := h.found i i (all i low)
  rw [← Array.getElem?_toList] at left right
  rw [List.get_eq_getElem, List.get_eq_getElem, (List.getElem?_eq_some_iff.mp left).2,
    (List.getElem?_eq_some_iff.mp right).2]
  exact holds

theorem array_eq (h : Matched true ids good xs ys) (same : ∀ a b, good a b → a = b) : xs = ys := by
  have cells := h.forall₂.imp same
  rw [List.forall₂_eq_eq_eq] at cells
  exact Array.toList_inj.mp cells

end Matched

theorem eq_of_forall₂ {α : Type} {P : α → α → Prop} (same : ∀ a b, P a b → a = b) {xs ys : List α}
    (h : List.Forall₂ P xs ys) : xs = ys := by
  have items := h.imp same
  rwa [List.forall₂_eq_eq_eq] at items

/-- Every reference stands for itself. -/
def Renaming.same : Renaming :=
  ⟨Eq, Eq, Eq, Eq⟩

theorem Value.Like.eq {v v' : Value} (h : v.Like .same v') : v = v' := by
  cases h with
  | nil | bool | num | text | native => rfl
  | list same => exact congrArg Value.list same
  | map same => exact congrArg Value.map same
  | function same => exact congrArg Value.function same

theorem Entry.Like.eq {e e' : Entry} (h : e.Like .same e') : e = e' := by
  obtain ⟨k, v⟩ := e
  obtain ⟨k', v'⟩ := e'
  rw [show k = k' from h.key.eq, show v = v' from h.value.eq]

mutual

theorem Key.Like.eq : {k k' : Key} → k.Like .same k' → k = k'
  | _, _, .nil | _, _, .bool _ | _, _, .num _ | _, _, .text _ | _, _, .native _ => rfl
  | .list _, _, .list items => congrArg Key.list (Key.Like.eqItems items)
  | .map _, _, .map pairs => congrArg Key.map (Key.Like.eqPairs pairs)
  | _, _, .function same => congrArg Key.function same

theorem Key.Like.eqItems : {ks ks' : List Key} → List.Forall₂ (Key.Like .same) ks ks' → ks = ks'
  | [], _, .nil => rfl
  | _ :: _, _, .cons first rest => congrArg₂ List.cons (Key.Like.eq first) (Key.Like.eqItems rest)

theorem Key.Like.eqPairs : {ps ps' : List (Key × Key)} →
    List.Forall₂ (PairLike (Key.Like .same) (Key.Like .same)) ps ps' → ps = ps'
  | [], _, .nil => rfl
  | (_, _) :: _, _, .cons (.mk key value) rest =>
    congrArg₂ List.cons (congrArg₂ Prod.mk (Key.Like.eq key) (Key.Like.eq value))
      (Key.Like.eqPairs rest)

end

theorem OrderedMap.Like.eq {κ ν : Type} [BEq κ] {K : κ → κ → Prop} {V : ν → ν → Prop}
    {m m' : OrderedMap κ ν} (h : m.Like K V m') (keys : ∀ k k', K k k' → k = k')
    (values : ∀ v v', V v v' → v = v') : m = m' := by
  have entries : m.latest = m'.latest := by
    refine eq_of_forall₂ ?_ h
    rintro _ _ ⟨key, value⟩
    rw [keys _ _ key, values _ _ value]
  cases m
  cases m'
  cases entries
  rfl

theorem Scope.Like.eq {c c' : Scope} (h : c.Like .same c') : c = c' := by
  obtain ⟨bindings, spaces, enclosing⟩ := c
  obtain ⟨bindings', spaces', enclosing'⟩ := c'
  have outer : enclosing = enclosing' := by
    cases h.enclosing with
    | none => rfl
    | some same => exact congrArg some same
  rw [show bindings = bindings' from h.bindings.eq (fun _ _ key => key) fun _ _ value => value.eq,
    show spaces = spaces' from h.spaces.eq (fun _ _ key => key) fun _ _ same => same, outer]

/-! ## States -/

/-- Functions with the same declaration but for places. -/
structure Closure.SameButPlaces (mode : Mode) (c c' : Closure) : Prop where
  signature : c.signature.Like Place.SameFile mode c'.signature
  body : List.Forall₂ (Stmt.Like Place.SameFile mode) c.body c'.body
  scope : c.scope = c'.scope

/-- Stores that are the same but for places in the declarations of functions. -/
structure Store.SameButPlaces (mode : Mode) (s s' : Store) : Prop where
  lists : s.lists = s'.lists
  maps : s.maps = s'.maps
  functions : List.Forall₂ (Closure.SameButPlaces mode) s.functions.toList s'.functions.toList
  scopes : s.scopes = s'.scopes

/-- States that are the same but for places. What was observed is left out. -/
structure Machine.SameButPlaces (mode : Mode) (m m' : Machine) : Prop where
  store : m.store.SameButPlaces mode m'.store
  scope : m.scope = m'.scope
  frames : List.Forall₂ (Frame.Like Place.SameFile) m.frames m'.frames
  directory : m.directory = m'.directory
  importing : m.importing = m'.importing
  tests : List.Forall₂ (TestResult.Like Place.SameFile) m.tests m'.tests
  host : m.host = m'.host

/-- Scripts that ended in the same way, with the same value or the same complaints. The reports on
faults are those of the two scripts. -/
inductive Outcome.SameButPlaces (script script' : Report.Script) : Outcome → Outcome → Prop
  | success (v : Value) : SameButPlaces script script' (.success v) (.success v)
  | malformed {ds ds' : List Diagnostic}
      (diagnostics : List.Forall₂ (Diagnostic.Like Place.SameFile) ds ds') :
      SameButPlaces script script' (.malformed ds) (.malformed ds')
  | fault {f f' : Fault} (same : f.Like Place.SameFile f') :
      SameButPlaces script script' (.fault f (Report.ofFault script f))
        (.fault f' (Report.ofFault script' f'))
  | defect (d : Defect) : SameButPlaces script script' (.defect d) (.defect d)
  | unfinished : SameButPlaces script script' .unfinished .unfinished

/-- The comparison of runs that differ only in places: references are called the same. -/
def Terms.moved (mode : Mode) (catching : mode ≠ .erasing) (event : Event → Event → Prop)
    (sameEvent : ∀ e, event e e)
    (warning : ∀ message p p', Place.SameFile p p' →
      event (.effect .error (warningText message p)) (.effect .error (warningText message p')))
    (earlier earlier' : List Event) : Terms where
  place := Place.SameFile
  mode := mode
  exact := true
  event := event
  earlier := earlier
  earlier' := earlier'
  refl _ := rfl
  sameEvent := sameEvent
  warning := warning
  renames erasing := absurd erasing catching

section Moved

variable {mode : Mode} {catching : mode ≠ .erasing} {event : Event → Event → Prop}
  {sameEvent : ∀ e, event e e}
  {warning : ∀ message p p', Place.SameFile p p' →
    event (.effect .error (warningText message p)) (.effect .error (warningText message p'))}
  {earlier earlier' : List Event} {ρ : Renaming}

/-- References that stand for each other are called the same. -/
theorem Store.Like.le_same {s s' : Store}
    (h : s.Like (.moved mode catching event sameEvent warning earlier earlier') ρ s') :
    ρ ≤ Renaming.same :=
  ⟨fun _ _ => h.lists.eq_of_exact, fun _ _ => h.maps.eq_of_exact,
    fun _ _ => h.functions.eq_of_exact, fun _ _ => h.scopes.eq_of_exact⟩

theorem Store.Like.sameButPlaces {s s' : Store}
    (h : s.Like (.moved mode catching event sameEvent warning earlier earlier') ρ s') :
    s.SameButPlaces mode s' where
  lists := h.lists.array_eq fun _ _ items => Array.toList_inj.mp
    (eq_of_forall₂ (fun _ _ value => (value.mono h.le_same).eq) items)
  maps := h.maps.array_eq fun _ _ content => content.eq (fun _ _ key => (key.mono h.le_same).eq)
    fun _ _ entry => (entry.mono h.le_same).eq
  functions := h.functions.forall₂.imp fun _ _ closure =>
    ⟨closure.signature, closure.body, h.le_same.scopes _ _ closure.scope⟩
  scopes := h.scopes.array_eq fun _ _ scope => (scope.mono h.le_same).eq

theorem Machine.Like.sameButPlaces {m m' : Machine}
    (h : m.Like (.moved mode catching event sameEvent warning earlier earlier') ρ m')
    (importing : m.importing = m'.importing) : m.SameButPlaces mode m' :=
  ⟨h.store.sameButPlaces, h.store.le_same.scopes _ _ h.scope, h.frames, h.directory, importing,
    h.tests, h.host⟩

theorem Outcome.Like.sameButPlaces {script script' : Report.Script} {o o' : Outcome} {m m' : Machine}
    (h : o.Like (.moved mode catching event sameEvent warning earlier earlier') ρ script script' o')
    (state : m.Like (.moved mode catching event sameEvent warning earlier earlier') ρ m') :
    o.SameButPlaces script script' o' := by
  cases h with
  | success value =>
    rw [(value.mono state.store.le_same).eq]
    exact .success _
  | malformed diagnostics => exact .malformed diagnostics
  | fault same => exact .fault same
  | defect d => exact .defect d
  | unfinished => exact .unfinished

end Moved

/-! ## What is printed -/

/-- The line that an event writes to the output, if it does. -/
def Event.output? : Event → Option String
  | .effect .output text => some text
  | _ => none

/-- The lines that are written to the output. -/
def outputs (events : List Event) : List String :=
  events.filterMap Event.output?

theorem outputs_append (es fs : List Event) : outputs (es ++ fs) = outputs es ++ outputs fs :=
  List.filterMap_append

theorem outputs_eq {es es' : List Event}
    (h : List.Forall₂ (fun e e' => e.output? = e'.output?) es es') : outputs es = outputs es' := by
  induction h with
  | nil => rfl
  | cons first _ ih =>
    unfold outputs at ih ⊢
    rw [List.filterMap_cons, List.filterMap_cons, first, ih]

/-- A failure is not written to the output. -/
theorem outputs_defectEvents (setup : Setup) (e : Failure) : outputs (defectEvents setup e) = [] := by
  unfold defectEvents
  split
  · rfl
  · cases setup.settings.debug <;> rfl
  · rfl
  · rfl

/-- The comparison of what two runs print. -/
def Terms.printing (mode : Mode) (catching : mode ≠ .erasing) (earlier earlier' : List Event) : Terms :=
  .moved mode catching (fun e e' => e.output? = e'.output?) (fun _ => rfl) (fun _ _ _ _ => rfl)
    earlier earlier'

/-- What was written since the comparison started is the same. -/
theorem Machine.Like.outputs {mode : Mode} {catching : mode ≠ .erasing} {earlier earlier' : List Event}
    {ρ : Renaming} {m m' : Machine} (h : m.Like (.printing mode catching earlier earlier') ρ m') :
    ∃ prints, ContractScript.outputs m.events.reverse
        = ContractScript.outputs earlier.reverse ++ prints ∧
      ContractScript.outputs m'.events.reverse
        = ContractScript.outputs earlier'.reverse ++ prints := by
  obtain ⟨es, es', events, events', same⟩ := h.events
  have written : ContractScript.outputs es.reverse = ContractScript.outputs es'.reverse :=
    outputs_eq (List.forall₂_reverse_iff.mpr same)
  refine ⟨ContractScript.outputs es.reverse, ?_, ?_⟩
  · rw [events, List.reverse_append, outputs_append]
    rfl
  · rw [events', List.reverse_append, outputs_append, written]
    rfl

end ContractScript
