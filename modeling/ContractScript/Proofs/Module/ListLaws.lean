/-
What the helpers for lists compute.

For every list and every number, a call of a helper ends, leaves everything that was there as it was, and
returns what its name says. A search compares item by item, so how many levels it needs depends on the items.
-/
import ContractScript.Proofs.Module.ListCalls
import ContractScript.Proofs.Run.Keeping
import ContractScript.Proofs.Value.Cycles

set_option autoImplicit false

namespace ContractScript

open EvalM HelperCode

namespace ListHelpers

section Laws

variable {setup : Setup} {depth : Nat} {place : Place} {m : Machine} {s s' : Store} {scope : ScopeId}
  {space : Lexeme} {id : ListId} {v : Value}

/-- Comparing the items of a list with a value has an answer, whatever has been added. -/
theorem settles_of_shallow {levels : Nat} (whole : s.Whole) (known : s.Has v)
    (shallow : s.Shallow depth (.list id)) (enough : depth ≤ levels) (extends_ : s.Extends s') :
    ∀ e ∈ (s.items id).toList, s'.equal? levels e v = some (s.equal? levels e v == some true) := by
  intro e member
  rw [Store.equal?_of_extends whole extends_ (whole.has_item member) known]
  cases depth with
  | zero => exact shallow.elim
  | succ depth =>
    obtain ⟨answer, compared⟩ := Store.exists_compared v (shallow e member)
    rw [Store.equal?_mono (Nat.le_of_succ_le enough) compared]
    cases answer <;> rfl

/-- One of the items is found exactly if it equals the value. -/
theorem any_iff {levels : Nat} (whole : s.Whole) (known : s.Has v)
    (shallow : s.Shallow depth (.list id)) (enough : depth ≤ levels) :
    ((s.items id).toList.any fun e => s.equal? levels e v == some true) = true
      ↔ ∃ e ∈ s.items id, s.Equals e v := by
  rw [List.any_eq_true]
  constructor
  · rintro ⟨e, member, found⟩
    exact ⟨e, Array.mem_toList_iff.mp member, levels, beq_iff_eq.mp found⟩
  · rintro ⟨e, member, more, equal⟩
    have listed := Array.mem_toList_iff.mpr member
    refine ⟨e, listed, ?_⟩
    -- there is an answer in these levels, and more levels give no other
    have settled := settles_of_shallow whole known shallow enough (.refl s) e listed
    have same := Store.equal?_mono (Nat.le_max_left levels more) settled
    rw [Store.equal?_mono (Nat.le_max_right levels more) equal] at same
    exact (Option.some.inj same).symm

theorem Returns.of_eq {call call' : EvalM Value} (returns : Returns call m v s') (same : call' m = call m) :
    Returns call' m v s' :=
  ⟨same.trans returns.ends, returns.adds⟩

/-- A list without a container that contains itself has a number of levels. -/
theorem exists_shallow
    (acyclic : ∀ w, Relation.ReflTransGen s.Holds (.list id) w → ¬Relation.TransGen s.Holds w w) :
    ∃ depth, s.Shallow depth (.list id) := by
  refine ⟨s.lists.size + s.maps.size + 1, ?_⟩
  -- nothing is passed twice on the way down, so there are no more levels than containers
  refine Store.shallow_of_passed _ ∅ _ (Finset.empty_subset _) ?_ acyclic ?_
  · exact fun r none => absurd none (Finset.notMem_empty r)
  · rw [Store.card_references, Finset.card_empty]
    exact Nat.lt_succ_self _

/-- What a call makes is new. -/
theorem not_has_new (s : Store) : ¬s.Has (.list s.lists.size) :=
  Nat.lt_irrefl _

end Laws

end ListHelpers

/-- Wherever a session gets to, the functions of the module for lists compute what their names say, if
there are enough levels left. Reversing a list makes a new list with the same items in reverse order.
Gathering numbers makes a new list of those below the bound, and refuses a negative bound before anything
is made. One number of levels is enough for all of that. Looking for a value finds out whether one of the
items equals it; for each list without a container that contains itself some number of levels is enough,
whatever is looked for. All calls end, and whatever there was before is as it was; outside of the store,
nothing happens at all. -/
theorem Session.list_module_correct : ∃ base, ∀ (settings : Settings) (host : Host)
    (scripts : List (String × Option String)) (source : String) (name : Option String)
    (ended : List Config) (c : Config),
    ((Session.new (Session.standard settings) host).after scripts).Reaches source name ended c →
    ∀ space : Lexeme, ListHelpers.bundle.Imported settings
      ((Session.new (Session.standard settings) host).chronicle scripts ++ ended) space c.machine →
    ∀ place : Place,
    let s := c.machine.store
    let call levels := callImported (Session.standard settings) levels place space
    (∀ xs, s.Has (.list xs) → (s.items xs).size < 2 ^ 53 →
      (∀ levels ≥ base,
        ∃ list s', ListHelpers.Returns (call levels "reverse" [.list xs]) c.machine (.list list) s' ∧
          ¬s.Has (.list list) ∧ s'.items list = (s.items xs).reverse) ∧
      ((∀ w, Relation.ReflTransGen s.Holds (.list xs) w → ¬Relation.TransGen s.Holds w w) →
        ∃ enough, ∀ levels ≥ enough, ∀ v, s.Has v →
          ∃ answer s', ListHelpers.Returns (call levels "contains" [.list xs, v]) c.machine
              (.bool answer) s' ∧
            (answer = true ↔ ∃ e ∈ s.items xs, s.Equals e v))) ∧
    ∀ levels ≥ base,
      (∀ (n : Nat) (x : Float), n < 2 ^ 53 → Number.same x (Number.ofInt n) = true →
        ∃ list s', ListHelpers.Returns (call levels "range" [.num x]) c.machine (.list list) s' ∧
          ¬s.Has (.list list) ∧ s'.items list = (ListHelpers.numbers n).toArray) ∧
      ∀ x : Float, x < Number.ofInt 0 →
        ∃ s', call levels "range" [.num x] c.machine
            = .error (.fault ⟨.precondition (some ListHelpers.refusal), some (closeLexeme place),
                some (⟨"range", place⟩ :: c.machine.frames).reverse⟩) { c.machine with store := s' } ∧
          s.Adds s' ∧ s'.lists = s.lists ∧ s'.maps = s.maps := by
  refine ⟨10, fun settings host scripts source name ended c reaches space imported place => ?_⟩
  obtain ⟨scope, means, loaded⟩ := imported.loaded reaches
  have whole : c.machine.store.Whole := reaches.whole.2
  have bounded : 2 ^ 53 ≤ 10 ^ 18 := by decide
  -- the name stands for the scope of the module, so a call through it is one of its functions
  have called {f : Signature × List Stmt} (member : f ∈ ListHelpers.functions) :=
    loaded.callImported_eq (Session.standard settings) means member
  refine ⟨fun xs there small => ⟨fun levels enough => ?_, fun acyclic => ?_⟩,
    fun levels enough => ⟨fun n x small equal => ?_, fun x negative => ?_⟩⟩
  · obtain ⟨d, rfl⟩ := Nat.exists_eq_add_of_le' enough
    obtain ⟨f, declared, same⟩ := called (f := ListHelpers.reverseFunction) (by simp [ListHelpers.functions])
    obtain ⟨s', returns, items⟩ := ListHelpers.callValue_reverse (Session.standard settings) d place loaded
      declared there small (Nat.lt_of_lt_of_le small bounded)
    exact ⟨_, s', returns.of_eq (same _ _ _), ListHelpers.not_has_new _, items⟩
  · obtain ⟨depth, shallow⟩ := ListHelpers.exists_shallow acyclic
    refine ⟨2 * depth + 10, fun levels enough v known => ?_⟩
    obtain ⟨d, rfl⟩ := Nat.exists_eq_add_of_le' (Nat.le_of_add_left_le enough)
    obtain ⟨f, declared, same⟩ := called (f := ListHelpers.containsFunction) (by simp [ListHelpers.functions])
    -- a comparison has half of the levels that the call leaves it
    have fits : depth ≤ (d + 2) / 2 + 1 := by omega
    obtain ⟨s', returns⟩ := ListHelpers.callValue_contains (Session.standard settings) d place loaded declared
      small (Nat.lt_of_lt_of_le small bounded)
      fun s' more => ListHelpers.settles_of_shallow whole known shallow fits more
    exact ⟨_, s', returns.of_eq (same _ _ _), ListHelpers.any_iff whole known shallow fits⟩
  · obtain ⟨d, rfl⟩ := Nat.exists_eq_add_of_le' enough
    obtain ⟨f, declared, same⟩ := called (f := ListHelpers.rangeFunction) (by simp [ListHelpers.functions])
    obtain ⟨s', returns, items⟩ := ListHelpers.callValue_range (Session.standard settings) d place loaded
      declared equal small (Nat.lt_of_lt_of_le small bounded)
    exact ⟨_, s', returns.of_eq (same _ _ _), ListHelpers.not_has_new _, items⟩
  · obtain ⟨d, rfl⟩ := Nat.exists_eq_add_of_le' enough
    obtain ⟨f, declared, same⟩ := called (f := ListHelpers.rangeFunction) (by simp [ListHelpers.functions])
    obtain ⟨s', ends, adds, lists, maps⟩ := ListHelpers.callValue_range_negative (Session.standard settings) d
      place declared negative
    exact ⟨s', (same _ _ _).trans ends, adds, lists, maps⟩

/-! ## Lists that are nested deeply -/

namespace ListHelpers

/-- A script that wraps two lists many times, and looks for one in the other. -/
def nestingScript : String :=
  "import \"larder/list\" as list; \x7b var a = [1, 2]; var b = [1, 2]; "
    ++ "for (var i = 0; i < 5000; i = i + 1) \x7b a = [a]; b = [b]; \x7d "
    ++ "print list::contains(a, b[0]); \x7d"

namespace Nesting

/-- Its only line. -/
def here : Place := ⟨none, 1⟩

/-- The list that both start with. -/
def pair : Expr := .list [whole 1, whole 2]

/-- A list is put into a list. -/
def wrap (text : String) : Stmt := .expression (.assign (word here text) (.list [name here text]))

/-- How often they are wrapped. -/
def counter : Counter := upTo here (whole 5000)

/-- The question at its end. -/
def question : Stmt :=
  .print (.call (.qualified [word here "list"] (word here "contains")) here
    [name here "a", .index (name here "b") here (whole 0)])

/-- The block of the script. -/
def block : List Stmt :=
  [.var (word here "a") (some pair), .var (word here "b") (some pair),
    counter.loop here [wrap "a", wrap "b"], question]

/-- The script as it is read. -/
def program : Program := [.load "larder/list" here (some (word here "list")), .block block]

theorem read : Program.ofSource false none nestingScript = (program, []) := by
  decide +kernel

/-! ### The lists that it makes -/

/-- The items of a list: the first two hold numbers, and every other one holds the one before the last. -/
def tower (i : Nat) : Array Value :=
  if i < 2 then #[.num (Number.ofInt 1), .num (Number.ofInt 2)] else #[.list (i - 2)]

/-- So many of these lists. -/
def towers (n : Nat) : Array (Array Value) := ((List.range n).map tower).toArray

theorem size_towers (n : Nat) : (towers n).size = n := by
  unfold towers
  rw [List.size_toArray, List.length_map, List.length_range]

theorem towers_succ (n : Nat) : towers (n + 1) = (towers n).push (tower n) := by
  unfold towers
  rw [List.range_succ, List.map_append, List.push_toArray]
  rfl

/-- Two lists with one item each are compared by these. -/
theorem equal?_singletons {s : Store} {x y : ListId} {u w : Value} (first : s.items x = #[u])
    (second : s.items y = #[w]) (levels : Nat) :
    s.equal? (levels + 1) (.list x) (.list y) = s.equal? levels u w := by
  rw [Store.equal?, first, second]
  show Store.allPairs? (s.equal? levels) [(u, w)] = _
  unfold Store.allPairs?
  cases s.equal? levels u w with
  | none => rfl
  | some answer => cases answer <;> rfl

section Towers

variable {s : Store} {n : Nat} (lists : s.lists = towers n)
include lists

theorem items_eq {i : Nat} (there : i < n) : s.items i = tower i := by
  unfold Store.items
  rw [lists, towers, Array.getD_eq_getD_getElem?, List.getElem?_toArray, List.getElem?_map,
    List.getElem?_range there]
  rfl

/-- Each list has one level more than the one that it holds. -/
theorem shallow_tower (k : Nat) : ∀ i, i < n → i / 2 = k → s.Shallow (k + 2) (.list i) := by
  induction k with
  | zero =>
    intro i there lowest w inside
    have items : w ∈ (s.items i).toList := inside
    rw [items_eq lists there, tower, if_pos (by omega)] at items
    have number : w = .num (Number.ofInt 1) ∨ w = .num (Number.ofInt 2) := by simpa using items
    rcases number with rfl | rfl <;> exact fun _ none => absurd none List.not_mem_nil
  | succ k ih =>
    intro i there higher w inside
    have items : w ∈ (s.items i).toList := inside
    rw [items_eq lists there, tower, if_neg (by omega)] at items
    obtain rfl : w = .list (i - 2) := by simpa using items
    exact ih (i - 2) (by omega) (by omega)

/-- Two lists of the same height are equal, and this takes as many levels as they have. -/
theorem equal?_towers (k : Nat) (there : 2 * k + 1 < n) (levels : Nat) :
    s.equal? levels (.list (2 * k)) (.list (2 * k + 1)) = if levels < k + 2 then none else some true := by
  -- the lowest lists hold equal numbers, and each list above costs one level more
  induction k generalizing levels with
  | zero =>
    have first : s.items 0 = tower 0 := items_eq lists (by omega)
    have second : s.items 1 = tower 1 := items_eq lists (by omega)
    match levels with
    | 0 => rfl
    | 1 =>
      rw [Store.equal?, first, second]
      rfl
    | levels + 2 =>
      have one : Number.same (Number.ofInt 1) (Number.ofInt 1) = true := by decide +kernel
      have two : Number.same (Number.ofInt 2) (Number.ofInt 2) = true := by decide +kernel
      have enough : ¬levels + 2 < 0 + 2 := by omega
      rw [if_neg enough, Store.equal?, first, second]
      simp [tower, Store.allPairs?, Store.equal?, one, two]
  | succ k ih =>
    have first : s.items (2 * (k + 1)) = #[.list (2 * k)] := by
      rw [items_eq lists (by omega), tower, if_neg (by omega)]
      rfl
    have second : s.items (2 * (k + 1) + 1) = #[.list (2 * k + 1)] := by
      rw [items_eq lists (by omega), tower, if_neg (by omega)]
      rfl
    cases levels with
    | zero => rfl
    | succ levels =>
      rw [equal?_singletons first second levels, ih (by omega) levels]
      exact if_congr (by omega) rfl rfl

end Towers

/-! ### The run -/

/-- The session in which it is run first. -/
def session : Session := Session.new (Session.standard {}) Host.bare

/-- The state in which it starts. -/
def start : Machine := (session.after []).ready

/-- The state after the import. -/
def loaded : Machine := bundle.imported (Session.standard {}) "list" start

/-- The state in which the block starts. -/
def entered : Machine :=
  { loaded with
    store := (loaded.store.newScope (some loaded.scope)).2
    scope := loaded.store.scopes.size }

/-- The state with one list. -/
def first : Machine :=
  { entered with store := (entered.store.newList (tower 0)).2.define entered.scope "a" (.list 0) }

/-- The state with two lists that are alike. -/
def second : Machine :=
  { first with store := (first.store.newList (tower 1)).2.define first.scope "b" (.list 1) }

/-- The scope of the block after so many rounds. -/
def around : Nat → Scope
  | 0 => ⟨(OrderedMap.empty.insert "a" (.list 0)).insert "b" (.list 1), .empty, some loaded.scope⟩
  | j + 1 =>
    { around j with
      bindings := ((around j).bindings.insert "a" (.list (2 * j + 2))).insert "b" (.list (2 * j + 1 + 2)) }

theorem get?_around (j : Nat) : (around j).bindings.get? "a" = some (.list (2 * j)) ∧
    (around j).bindings.get? "b" = some (.list (2 * j + 1)) := by
  cases j with
  | zero => exact ⟨rfl, rfl⟩
  | succ j =>
    unfold around
    dsimp only
    rw [OrderedMap.get?_insert, OrderedMap.get?_insert, OrderedMap.get?_insert]
    exact ⟨rfl, rfl⟩

theorem load_first : runTop (Session.standard {}) program[0] start = .ok .nil loaded :=
  bind_ok (Bundle.execute_load (b := bundle) 997 here (word here "list") List.not_mem_nil)

theorem declare_first : execute (Session.standard {}) 999 (.var (word here "a") (some pair)) entered
    = .ok .next first := rfl

theorem declare_second : execute (Session.standard {}) 999 (.var (word here "b") (some pair)) first
    = .ok .next second := rfl

theorem lists_second : second.store.lists = towers 2 := rfl

theorem adds_second : loaded.store.Adds second.store :=
  (((((Store.Adds.refl _).newScope _).newList _).define (Nat.le_refl _) _ _).newList _).define
    (Nat.le_refl _) _ _

theorem shows_second : second.store.Shows loaded.store.scopes.size (around 0) := by
  have made := (Store.Adds.newList (.refl _) (tower 0)).shows
    (Store.shows_newScope loaded.store (some loaded.scope))
  exact ((Store.Adds.newList (.refl _) (tower 1)).shows (made.define "a" (.list 0))).define "b" (.list 1)

section Wrap

variable {setup : Setup} {depth : Nat} {m : Machine} {base s : Store} {c : Scope}
  {loop outer inner : ScopeId} {x : Float}

variable (setup depth m) in
/-- A list is put into a list, and its name means that. -/
theorem execute_wrap {text : String} {id : ListId}
    (h : Counting.Within base "i" c (· = towers (id + 2)) loop outer inner x s) (other : text ≠ "i")
    (bound : c.bindings.get? text = some (.list id)) :
    ∃ s', execute setup (depth + 4) (wrap text) { m with store := s, scope := inner }
        = .ok .next { m with store := s', scope := inner } ∧
      Counting.Within base "i" { c with bindings := c.bindings.insert text (.list (id + 2)) }
        (· = towers (id + 3)) loop outer inner x s' := by
  have named : s.value? inner text = some (.list id) := (h.sees text).1.trans (h.value?_around other bound)
  have size : s.lists.size = id + 2 := by
    rw [h.lists]
    exact size_towers _
  have made : evaluate setup (depth + 2) (.list [name here text]) { m with store := s, scope := inner }
      = .ok (.list (id + 2)) { m with store := (s.newList #[.list id]).2, scope := inner } := by
    rw [← size, evaluate]
    exact (bind_ok (values_cons (evaluate_variable setup depth named) rfl)).trans rfl
  -- the new list is the next of the lists that the script makes
  have more : s.lists.push #[.list id] = towers (id + 3) := by
    rw [towers_succ, h.lists, tower, if_neg (by omega)]
    rfl
  have there : Counting.Within base "i" c (· = towers (id + 3)) loop outer inner x
      (s.newList #[.list id]).2 :=
    h.withLists (h.adds.newList #[.list id]).extends_.lists more
  have owned : (s.newList #[.list id]).2.owner? inner text = some base.scopes.size := by
    refine (there.sees text).2.trans (there.owner?_around other ?_)
    unfold OrderedMap.contains
    rw [bound]
    rfl
  exact ⟨_, execute_expression (evaluate_assign made owned), there.assign text (.list (id + 2))⟩

end Wrap

/-- A round of the script puts both lists into lists. -/
theorem sequence_wraps {setup : Setup} {depth j : Nat} {m : Machine} {base s : Store}
    {loop outer inner : ScopeId} {x : Float}
    (reached : Counting.Within base "i" (around j) (· = towers (2 * j + 2)) loop outer inner x s) :
    ∃ s', sequence (execute setup (depth + 4)) [wrap "a", wrap "b"] { m with store := s, scope := inner }
        = .ok .next { m with store := s', scope := inner } ∧
      Counting.Within base "i" (around (j + 1)) (· = towers (2 * (j + 1) + 2)) loop outer inner x s' := by
  obtain ⟨first, second⟩ := get?_around j
  have bound : ((around j).bindings.insert "a" (.list (2 * j + 2))).get? "b"
      = some (.list (2 * j + 1)) := by
    rw [OrderedMap.get?_insert]
    exact second
  obtain ⟨s₁, ran, there⟩ := execute_wrap setup depth m reached (by decide) first
  obtain ⟨s₂, ran', there'⟩ := execute_wrap setup depth m there (by decide) bound
  exact ⟨s₂, (sequence_next ran).trans ((sequence_next ran').trans rfl), there'⟩

/-- The counter of the script goes through its rounds. -/
theorem runs : counter.Runs (Session.standard {}) 991 (fun _ => True) (fun j => Number.ofInt j) 5000 :=
  upTo_runs (Session.standard {}) 991 here (by decide)
    (fun j below => Number.ofInt_lt (b := 5000) below (by decide)) fun _ _ => rfl

/-- The loop of the script makes all the lists. -/
theorem looped : ∃ s', execute (Session.standard {}) 999 (counter.loop here [wrap "a", wrap "b"]) second
      = .ok .next { second with store := s' } ∧
    loaded.store.Adds s' ∧ s'.Shows loaded.store.scopes.size (around 5000) ∧ s'.lists = towers 10002 := by
  have counts : Counts (Session.standard {}) 994 second loaded.store (word here "i") counter.more
      counter.step [wrap "a", wrap "b"] (fun j => Number.ofInt j) around
      (fun j lists => lists = towers (2 * j + 2)) 5000 :=
    runs.counts (Nat.le_refl _) (fun _ _ _ _ => trivial) fun j _ => fun reached => sequence_wraps reached
  exact counts.execute adds_second rfl shows_second lists_second (by decide) rfl fun reached =>
    runs.goes 5000 (Nat.le_refl _) _ trivial reached.value?_counter

theorem outside_around (j : Nat) :
    (around j).spaces = .empty ∧ (around j).enclosing = some loaded.scope := by
  induction j with
  | zero => exact ⟨rfl, rfl⟩
  | succ j ih => exact ih

/-- In the block the name stands for what has been imported outside. -/
theorem space?_block {s : Store} {j : Nat} (adds : loaded.store.Adds s)
    (shown : s.Shows loaded.store.scopes.size (around j)) :
    s.space? loaded.store.scopes.size "list" = some start.store.scopes.size := by
  obtain ⟨spaces, enclosing⟩ := outside_around j
  have outer : loaded.scope < loaded.store.scopes.size := by decide
  have bound : (s.scope loaded.scope).spaces.get? "list" = some start.store.scopes.size := by
    rw [(adds.scopes _ outer).2]
    rfl
  unfold Store.space?
  rw [Store.findOutward, shown.content, spaces, enclosing]
  refine (if_pos outer).trans ?_
  rw [Store.findOutward, bound]

/-- The script comes to its question, with all the lists made. -/
theorem reaches : ∃ ended s', (session.after []).Reaches nestingScript none ended
      ⟨999, .execute question, { second with store := s' }⟩ ∧
    bundle.Imported {} (session.chronicle [] ++ ended) (word here "list") { second with store := s' } ∧
    s'.lists = towers 10002 := by
  obtain ⟨s', ends, adds, shown, lists⟩ := looped
  have inside : Asks (Session.standard {}) ⟨1000, .execute (.block block), loaded⟩ .inner
      ⟨999, .execute question, { second with store := s' }⟩ :=
    .block rfl (.later declare_first rfl (.later declare_second rfl (.later ends rfl .first)))
  obtain ⟨ended, past⟩ := (Trail.step inside .here).past
  have ran : execute (Session.standard {}) 1000 (.load "larder/list" here (some (word here "list"))) start
      = .ok .next loaded := Bundle.execute_load (b := bundle) 997 _ _ List.not_mem_nil
  refine ⟨_, s', ⟨program, read, .later load_first (.first past)⟩,
    .intro (List.mem_append_right _ (List.mem_append_left _ ?_)) ran (space?_block adds shown), lists⟩
  exact Config.mem_chronicle.mpr ⟨[], .here⟩

/-- A call of a function of the module, where the question is asked. -/
def call (levels : Nat) (text : String) (arguments : List Value) : EvalM Value :=
  callImported (Session.standard {}) levels here (word here "list") text arguments

/-- With the first lists that it makes, and with numbers, the functions do what they should. -/
theorem computes_shallow : ∃ levels ended c l₁ l₂ s₁ s₂ s₃ s₄,
    (session.after []).Reaches nestingScript none ended c ∧
    bundle.Imported {} (session.chronicle [] ++ ended) (word here "list") c.machine ∧
    Returns (call levels "reverse" [.list 0]) c.machine (.list l₁) s₁ ∧
    s₁.items l₁ = #[.num (Number.ofInt 2), .num (Number.ofInt 1)] ∧
    Returns (call levels "contains" [.list 2, .list 1]) c.machine (.bool true) s₂ ∧
    Returns (call levels "range" [.num (Number.ofInt 2)]) c.machine (.list l₂) s₃ ∧
    s₃.items l₂ = #[.num (Number.ofInt 0), .num (Number.ofInt 1)] ∧
    call levels "range" [.num (Number.ofInt (-1))] c.machine
      = .error (.fault ⟨.precondition (some refusal), some (closeLexeme here),
          some [⟨"range", here⟩]⟩) { c.machine with store := s₄ } := by
  obtain ⟨ended, s, reaches, imported, lists⟩ := reaches
  obtain ⟨base, correct⟩ := Session.list_module_correct
  obtain ⟨ofLists, ofNumbers⟩ := correct {} Host.bare [] _ _ _ _ reaches _ imported here
  have has (i : Nat) (there : i < 10002) : s.Has (.list i) := by
    show i < s.lists.size
    rw [lists, size_towers]
    exact there
  have items (i : Nat) (there : i < 10002) : s.items i = tower i := items_eq lists there
  obtain ⟨reversing, -⟩ := ofLists 0 (has 0 (by decide))
    (show (s.items 0).size < 2 ^ 53 by rw [items 0 (by decide)]; decide)
  obtain ⟨-, searching⟩ := ofLists 2 (has 2 (by decide))
    (show (s.items 2).size < 2 ^ 53 by rw [items 2 (by decide)]; decide)
  obtain ⟨enough, contains⟩ := searching (shallow_tower lists 1 2 (by decide) rfl).acyclic
  have first : max base enough ≥ base := Nat.le_max_left base enough
  obtain ⟨l₁, s₁, reverses, -, reversed⟩ := reversing _ first
  obtain ⟨answer, s₂, finds, found⟩ := contains _ (Nat.le_max_right base enough) (.list 1) (has 1 (by decide))
  obtain ⟨gathering, refuses⟩ := ofNumbers _ first
  obtain ⟨l₂, s₃, gathers, -, gathered⟩ := gathering 2 (Number.ofInt 2) (by decide) (by decide +kernel)
  obtain ⟨s₄, refused, -⟩ := refuses (Number.ofInt (-1)) (by decide +kernel)
  -- the item found is another list with the same numbers in it
  have equal : s.Equals (.list 0) (.list 1) := ⟨2, (equal?_towers lists 0 (by decide) 2).trans (by decide)⟩
  have there : ∃ e ∈ s.items 2, s.Equals e (.list 1) := by
    rw [items 2 (by decide)]
    exact ⟨.list 0, by simp [tower], equal⟩
  rw [found.mpr there] at finds
  refine ⟨_, ended, _, l₁, l₂, s₁, s₂, s₃, s₄, reaches, imported, reverses, reversed.trans ?_, finds,
    gathers, gathered, refused⟩
  show (s.items 0).reverse = _
  rw [items 0 (by decide)]
  simp [tower]

/-- In the last list that it makes, which has one item, a search does not find a value that this equals,
although nothing contains itself: there are not enough levels. -/
theorem overflows_deep : ∃ ended c xs e v m',
    (session.after []).Reaches nestingScript none ended c ∧
    bundle.Imported {} (session.chronicle [] ++ ended) (word here "list") c.machine ∧
    c.machine.store.Has (.list xs) ∧ c.machine.store.Has v ∧
    (∀ u ∈ [.list xs, v], ∀ w, Relation.ReflTransGen c.machine.store.Holds u w →
      ¬Relation.TransGen c.machine.store.Holds w w) ∧
    c.machine.store.items xs = #[e] ∧ c.machine.store.Equals e v ∧
    call 997 "contains" [.list xs, v] c.machine
      = .error (.fault ⟨.stackOverflow, some (closeLexeme here),
          some [⟨"contains", here⟩]⟩) m' := by
  obtain ⟨ended, s, reaches, imported, lists⟩ := reaches
  obtain ⟨scope, means, loaded⟩ := imported.loaded reaches
  have whole : s.Whole := reaches.whole.2
  have has (i : Nat) (there : i < 10002) : s.Has (.list i) := by
    show i < s.lists.size
    rw [lists, size_towers]
    exact there
  have last : s.items 10000 = #[.list 9998] := by
    rw [items_eq lists (by decide), tower, if_neg (by decide)]
  have compared := equal?_towers lists 4999 (by decide)
  obtain ⟨f, declared, same⟩ := loaded.callImported_eq (Session.standard {}) means (f := containsFunction)
    (by simp [bundle, functions])
  have inside : 0 < (s.items 10000).toList.length := by rw [last]; decide
  have first : (s.items 10000).toList[0] = .list 9998 := by simp [last]
  -- the lists are five thousand high, and the call leaves a comparison less than five hundred levels
  have unsettled (s' : Store) (more : s.Extends s') :
      s'.equal? 495 (s.items 10000).toList[0] (.list 9999) = none := by
    rw [first, Store.equal?_of_extends whole more (has 9998 (by decide)) (has 9999 (by decide))]
    exact (compared 495).trans (if_pos (by decide))
  obtain ⟨m', failed⟩ := callValue_contains_overflows (Session.standard {}) 987 here loaded declared
    (last ▸ (by decide)) (last ▸ (by decide)) inside unsettled
  refine ⟨ended, _, 10000, .list 9998, .list 9999, m', reaches, imported, has _ (by decide), has _ (by decide),
    ?_, last, ⟨5001, (compared 5001).trans (by decide)⟩, (same _ _ _).trans failed⟩
  exact List.forall_mem_cons.mpr ⟨(shallow_tower lists 5000 10000 (by decide) rfl).acyclic,
    List.forall_mem_singleton.mpr (shallow_tower lists 4999 9999 (by decide) rfl).acyclic⟩

end Nesting

end ListHelpers

end ContractScript
