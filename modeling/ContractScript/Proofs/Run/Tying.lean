/-
How data come to contain themselves.

Lists and maps are handed from one evaluation to the next, like files. What an evaluation does to
them itself, when everything that it asks for has been answered, is one of five things: nothing, a new
list or map of what is there already, an item appended to a list, or an entry put into a map. Nothing
leads to a new list or map yet, so no way leads back from what it holds. Only appending and putting
can make a cycle, and only if what is handed over leads to the list or map that takes it.

So in the course of a session, data contain themselves only if a script has tied them together by
such a call. As long as they do not, showing, comparing and writing keys end.
-/
import ContractScript.Proofs.Run.Handover
import ContractScript.Proofs.Run.Lasting
import ContractScript.Proofs.Value.Cycles

set_option autoImplicit false

namespace ContractScript

open EvalM Course Relation

/-! ## What a store can do to lists and maps -/

namespace Store

variable {s s' : Store}

/-- What lists and maps hold. -/
def contents (s : Store) : Array (Array Value) × Array (OrderedMap Key Entry) :=
  (s.lists, s.maps)

theorem Acyclic.of_contents (acyclic : s.Acyclic) (same : s'.contents = s.contents) : s'.Acyclic :=
  acyclic.of_same (congrArg Prod.fst same) (congrArg Prod.snd same)

/-- Where there are no lists and maps nothing contains anything. -/
theorem acyclic_empty : Acyclic .empty := by
  intro v cycle
  have nothing {u w : Value} : ¬Store.empty.Contains u w := by
    cases u <;> exact List.not_mem_nil
  cases cycle with
  | single contains => exact nothing contains
  | tail _ contains => exact nothing contains

/-- What is contained is there. -/
theorem Whole.has_of_contains (whole : s.Whole) {u w : Value} (contains : s.Contains u w) : s.Has w := by
  cases u with
  | list id => exact whole.has_item contains
  | map id =>
    obtain ⟨e, entry, part⟩ := List.mem_flatMap.mp contains
    obtain ⟨key, value⟩ := whole.entries id e entry
    rcases List.mem_pair.mp part with rfl | rfl
    · exact key
    · exact value
  | _ => exact absurd contains List.not_mem_nil

/-- What is reached from something that is there is there too. -/
theorem Whole.has_of_reach (whole : s.Whole) {u w : Value} (there : s.Has u)
    (reach : ReflTransGen s.Contains u w) : s.Has w := by
  cases reach with
  | refl => exact there
  | tail _ contains => exact whole.has_of_contains contains

/-- A new list of what is there makes no cycle. -/
theorem Acyclic.newList (acyclic : s.Acyclic) (whole : s.Whole) {items : Array Value}
    (there : ∀ v ∈ items, s.Has v) : (s.newList items).2.Acyclic :=
  no_cycle_of_edges acyclic (fun _ _ => contains_newList) fun v member back =>
    Nat.lt_irrefl _ (whole.has_of_reach (there v (Array.mem_toList_iff.mp member)) back)

/-- A new map of what is there makes no cycle. -/
theorem Acyclic.newMap (acyclic : s.Acyclic) (whole : s.Whole) {content : OrderedMap Key Entry}
    (there : ∀ e ∈ content.values, s.Has e.key ∧ s.Has e.value) : (s.newMap content).2.Acyclic := by
  refine no_cycle_of_edges acyclic (fun _ _ => contains_newMap) fun v member back => ?_
  obtain ⟨e, entry, part⟩ := List.mem_flatMap.mp member
  have held : s.Has v := by
    rcases List.mem_pair.mp part with rfl | rfl
    · exact (there e entry).1
    · exact (there e entry).2
  exact Nat.lt_irrefl _ (whole.has_of_reach held back)

/-- Appending makes no cycle if the list is not reached from the item. -/
theorem Acyclic.push (acyclic : s.Acyclic) {id : ListId} {v : Value}
    (apart : ¬ReflTransGen s.Contains v (.list id)) : (s.push id v).Acyclic :=
  no_cycle_of_edges acyclic (fun _ _ => contains_push) (List.forall_mem_singleton.mpr apart)

/-- Putting an entry makes no cycle if the map is reached neither from the key nor from the value. -/
theorem Acyclic.put (acyclic : s.Acyclic) {id : MapId} {k : Key} {e : Entry}
    (key : ¬ReflTransGen s.Contains e.key (.map id))
    (value : ¬ReflTransGen s.Contains e.value (.map id)) : (s.put id k e).Acyclic :=
  no_cycle_of_edges acyclic (fun _ _ => contains_put)
    (List.forall_mem_cons.mpr ⟨key, List.forall_mem_singleton.mpr value⟩)

end Store

/-! ## What an evaluation does itself -/

/-- An evaluation ties data together: it appends to a list, or puts into a map, something that is this
list or map or from which it is reached. -/
inductive Config.Ties (c : Config) : Prop
  | append {id : ListId} {v : Value} (task : c.task = .invoke (.native .append) [.list id, v])
      (reach : ReflTransGen c.machine.store.Contains v (.list id))
  | putKey {id : MapId} {key value : Value}
      (task : c.task = .invoke (.native .put) [.map id, key, value])
      (reach : ReflTransGen c.machine.store.Contains key (.map id))
  | putValue {id : MapId} {key value : Value}
      (task : c.task = .invoke (.native .put) [.map id, key, value])
      (reach : ReflTransGen c.machine.store.Contains value (.map id))

/-- What an evaluation does to lists and maps itself, once its questions have been answered. -/
inductive Closes (c : Config) (s s' : Store) : Prop
  | keep (same : s'.contents = s.contents)
  | list {items : Array Value} (whole : s.Whole) (there : ∀ v ∈ items, s.Has v)
      (made : s'.contents = (s.newList items).2.contents)
  | map {content : OrderedMap Key Entry} (whole : s.Whole)
      (there : ∀ e ∈ content.values, s.Has e.key ∧ s.Has e.value)
      (made : s'.contents = (s.newMap content).2.contents)
  | append {id : ListId} {v : Value} (task : c.task = .invoke (.native .append) [.list id, v])
      (here : s = c.machine.store) (made : s'.contents = (s.push id v).contents)
  | put {id : MapId} {key value : Value} {k : Key}
      (task : c.task = .invoke (.native .put) [.map id, key, value])
      (here : s = c.machine.store) (made : s'.contents = (s.put id k ⟨key, value⟩).contents)

/-- It makes no cycle unless it ties data together. -/
theorem Closes.acyclic {c : Config} {s s' : Store} (closes : Closes c s s') (acyclic : s.Acyclic)
    (free : ¬c.Ties) : s'.Acyclic := by
  cases closes with
  | keep same => exact acyclic.of_contents same
  | list whole there made => exact (acyclic.newList whole there).of_contents made
  | map whole there made => exact (acyclic.newMap whole there).of_contents made
  | append task here made =>
    subst here
    exact (acyclic.push fun reach => free (.append task reach)).of_contents made
  | put task here made =>
    subst here
    exact (acyclic.put (fun reach => free (.putKey task reach))
      fun reach => free (.putValue task reach)).of_contents made

/-- What the lists and maps of a state hold. -/
def Machine.contents (m : Machine) : Array (Array Value) × Array (OrderedMap Key Entry) :=
  m.store.contents

instance : Sited Machine.contents where
  events _ _ := rfl
  host _ _ _ := rfl

instance : Material Machine.contents where
  code _ _ _ := rfl

instance : Detached Machine.contents := ⟨fun _ _ _ _ _ => rfl⟩

/-- A step of an evaluation that goes no further than what evaluations do themselves. -/
def Shuts {α : Type} (c : Config) (step : EvalM α) (m : Machine) : Prop :=
  Closes c m.store (finalState step m).store

namespace Shuts

variable {α β : Type} {c : Config} {m : Machine} {ρ : Renaming}

theorem keep {step : EvalM α} (kept : Keeps Machine.contents step) (m : Machine) : Shuts c step m :=
  Closes.keep (kept m)

/-- A step that goes on after a look at the state. -/
theorem after {look : EvalM α} {f : α → EvalM β} (kept : Keeps id look)
    (then_ : ∀ a, look m = .ok a m → Shuts c (f a) m) : Shuts c (look >>= f) m := by
  have same : finalState look m = m := kept m
  unfold Shuts
  rw [finalState_bind]
  unfold finalState at same
  cases ran : look m with
  | ok a m' =>
    rw [ran] at same
    dsimp only at same ⊢
    subst same
    exact then_ a ran
  | error e m' =>
    rw [ran] at same
    exact .keep (congrArg Machine.contents same)

theorem newList (like : m.Like .self ρ m) {items : Array Value} (there : ∀ v ∈ items, m.store.Has v) :
    Shuts c (EvalM.newList items) m :=
  .list (like.store.whole rfl) there rfl

theorem newMap (like : m.Like .self ρ m) {content : OrderedMap Key Entry}
    (there : ∀ e ∈ content.values, m.store.Has e.key ∧ m.store.Has e.value) :
    Shuts c (do return .map (← EvalM.onStore fun s => s.newMap content) : EvalM Value) m :=
  .map (like.store.whole rfl) there rfl

/-- A sum may be a new list with the items of two others. -/
theorem addValues (like : m.Like .self ρ m) (depth : Nat) (place : Place) (a b : Value) :
    Shuts c (addValues depth place a b) m := by
  have whole : m.store.Whole := like.store.whole rfl
  unfold ContractScript.addValues
  split
  · exact .keep (.pure _) m
  · exact .keep (.bind (.shown depth _) fun _ => .pure _) m
  · exact .keep (.bind (.shown depth _) fun _ => .pure _) m
  · rename_i x y
    refine newList like fun v member => ?_
    rcases Array.mem_append.mp member with left | right
    · exact whole.items x v left
    · exact whole.items y v right
  · exact .keep (.throw _) m

/-- A slice may be a new list with some items of another. -/
theorem sliceValue (like : m.Like .self ρ m) (place : Place) (collection first last : Value) :
    Shuts c (sliceValue place collection first last) m := by
  have whole : m.store.Whole := like.store.whole rfl
  unfold ContractScript.sliceValue
  split
  · rename_i x
    refine after .get fun _ got => ?_
    cases got
    refine after (.sliceBounds place _ first last) fun bounds _ => newList like fun v member => ?_
    rw [Array.mem_def, Array.toList_extract, List.extract_eq_take_drop] at member
    exact whole.has_item (List.mem_of_mem_drop (List.mem_of_mem_take member))
  · exact .keep (.bind (.sliceBounds place _ first last) fun _ => .pure _) m
  · exact .keep (.throw _) m

/-- The keys or the values of a map as a new list. -/
theorem listOf (like : m.Like .self ρ m) (depth : Nat) (v : Value) {part : Entry → Value}
    (there : ∀ id, ∀ e ∈ (m.store.content id).values, m.store.Has (part e)) :
    Shuts c (do
      let id ← Native.expectMap depth v
      EvalM.newList (((← get).store.content id).values.map part).toArray) m := by
  refine after (.expectMap depth v) fun id _ => after .get fun _ got => ?_
  cases got
  refine newList like fun w member => ?_
  obtain ⟨e, entry, rfl⟩ := List.mem_map.mp (List.mem_toArray.mp member)
  exact there id e entry

end Shuts

/-! ## Questions, and then a step -/

section Level

variable {setup : Setup} {depth : Nat} {c : Config} {m : Machine} {ρ : Renaming}

/-- An evaluation hands lists and maps to its questions, and does nothing but what evaluations do
themselves with what the last of them has left. -/
def Closing {α : Type} (setup : Setup) (depth : Nat) (c : Config) (course : Course) (step : EvalM α) :
    Prop :=
  ∃ m₁ : Machine, Handed Machine.contents setup depth c.machine.contents (course c.machine) m₁.contents ∧
    Closes c m₁.store (finalState step c.machine).store

theorem Closing.bind {α β : Type} {gather : EvalM α} {make : α → EvalM β}
    {good : Renaming → α → α → Prop} {course : Course}
    (handed : Hands Machine.contents setup depth gather course)
    (follows : Follows .self ρ good gather gather) (like : c.machine.Like .self ρ c.machine)
    (shuts : ∀ {σ : Renaming} {a : α} {m : Machine}, m.Like .self σ m → good σ a a → Shuts c (make a) m) :
    Closing setup depth c course (gather >>= make) := by
  have asked := handed c.machine
  unfold Closing
  rw [finalState_bind]
  unfold finalState at asked
  cases ran : gather c.machine with
  | ok a m₁ =>
    rw [ran] at asked
    obtain ⟨σ, -, like₁, given⟩ := follows.of_ok like ran
    exact ⟨m₁, asked, shuts like₁ given⟩
  | error e m₁ =>
    rw [ran] at asked
    exact ⟨m₁, asked, .keep rfl⟩

theorem evaluate_binary_of_values (op : BinaryOp) (place : Place) (left right : Expr) :
    evaluate setup (depth + 1) (.binary op place left right)
      = EvalM.values (evaluate setup depth) [left, right] >>= fun vs =>
          op.apply depth place (vs.getD 0 .nil) (vs.getD 1 .nil) := by
  simp only [evaluate, EvalM.values, bind_assoc, pure_bind]
  rfl

theorem evaluate_slice_of_values (collection : Expr) (bracket : Place) (first last : Expr) :
    evaluate setup (depth + 1) (.slice collection bracket first last)
      = EvalM.values (evaluate setup depth) [collection, first, last] >>= fun vs =>
          sliceValue bracket (vs.getD 0 .nil) (vs.getD 1 .nil) (vs.getD 2 .nil) := by
  simp only [evaluate, EvalM.values, bind_assoc, pure_bind]
  rfl

/-- An expression that may make a list or map makes one of what its operands are. -/
theorem Expr.closing {e : Expr} (makes : e.isMaker = true) (like : m.Like .self ρ m) :
    Closing setup depth ⟨depth + 1, .evaluate e, m⟩ (e.course setup depth)
      (evaluate setup (depth + 1) e) := by
  have through := Hands.traversal Machine.contents setup depth
  have along := through.compositional
  have run := evaluationFollows .self setup depth
  -- operands are evaluated one after another, and their values are there
  have operands (es : List Expr) : Follows .self ρ (fun σ => List.Forall₂ (Value.Like σ))
      (EvalM.values (evaluate setup depth) es) (EvalM.values (evaluate setup depth) es) :=
    .values run.evaluate (Expr.Like.reflAll es) ρ
  cases e with
  | list items =>
    refine .bind (along.values through.evaluate items) (operands items) like fun like₁ given => ?_
    refine .newList like₁ fun v member => like₁.store.has (List.forall₂_same.mp given v ?_)
    exact List.mem_toArray.mp member
  | map pairs =>
    have entries := Follows.entries run.evaluate depth (Expr.Like.reflPairs pairs) ρ .empty .empty
      OrderedMap.like_empty
    refine .bind (along.entries depth through.evaluate pairs .empty) entries like fun like₁ given => ?_
    refine .newMap like₁ fun e entry => ?_
    have held := List.forall₂_same.mp given.values e entry
    exact ⟨like₁.store.has held.key, like₁.store.has held.value⟩
  | binary op place left right =>
    cases beq_iff_eq.mp makes
    rw [evaluate_binary_of_values]
    exact .bind (along.values through.evaluate [left, right]) (operands _) like fun like₁ _ =>
      .addValues like₁ depth place _ _
  | slice collection bracket first last =>
    rw [evaluate_slice_of_values]
    exact .bind (along.values through.evaluate [collection, first, last]) (operands _) like
      fun like₁ _ => .sliceValue like₁ bracket _ _ _
  | _ => cases makes

/-- A built-in function makes a list of what is in a map, or appends, or puts, or leaves lists and
maps alone. -/
theorem Native.shuts {g : Native} {arguments : List Value} (like : m.Like .self ρ m) :
    Shuts ⟨depth + 1, .invoke (.native g) arguments, m⟩ (g.call setup depth arguments) m := by
  have whole : m.store.Whole := like.store.whole rfl
  -- only four functions make or change a list or map
  cases makes : g.isMaker with
  | false =>
    have write (path content : String) : Keeps Machine.contents (Native.writeFile setup path content) :=
      .writeFile (fun _ _ => rfl) setup path content
    exact .keep (.native_plain setup depth makes arguments fun _ path content _ => write path content) m
  | true =>
    unfold Native.call
    split
    · cases makes
    · cases makes
    · cases makes
    · cases makes
    · exact .listOf like depth _ fun id e entry => (whole.entries id e entry).1
    · exact .listOf like depth _ fun id e entry => (whole.entries id e entry).2
    · rename_i target key value
      cases target with
      | map id =>
        refine .after (.expectMap depth _) fun _ ran => .after (.keyOf depth key) fun k _ => ?_
        cases ran
        exact .put rfl rfl rfl
      | _ => exact .keep (.rejected depth _ _ _) m
    · split
      · exact .append rfl rfl rfl
      · exact .keep (.reject depth _ _) m
    · cases makes
    · cases makes
    · cases makes
    · exact .keep (.pure _) m

variable (setup depth) in
/-- Every evaluation hands lists and maps to its questions and then does one of these things. -/
theorem Task.closing (task : Task) (like : m.Like .self ρ m) :
    ∃ m₁ : Machine, Handed Machine.contents setup depth m.contents (task.course setup depth m) m₁.contents ∧
      Closes ⟨depth + 1, task, m⟩ m₁.store (Config.finalState setup ⟨depth + 1, task, m⟩).store := by
  by_cases expression : ∃ e, task = .evaluate e ∧ e.isMaker = true
  · obtain ⟨e, rfl, makes⟩ := expression
    exact e.closing makes like
  by_cases native : ∃ g arguments, task = .invoke (.native g) arguments
  · obtain ⟨g, arguments, rfl⟩ := native
    exact ⟨m, .done, Native.shuts like⟩
  -- everything else leaves lists and maps to its questions
  have handed : Handed Machine.contents setup depth m.contents (task.course setup depth m)
      (Config.finalState setup ⟨depth + 1, task, m⟩).contents := Task.handed_if Machine.contents setup depth
    (fun e same => (Hands.traversal _ setup depth).plainExpression
      (Bool.eq_false_iff.mpr fun makes => expression ⟨e, same, makes⟩))
    (fun g arguments same => absurd ⟨g, arguments, same⟩ native) (fun _ _ _ _ _ _ => rfl) m
  exact ⟨_, handed, .keep rfl⟩

end Level

/-! ## Evaluations one after another -/

/-- The state that evaluations leave which have ended one after another. -/
def Machine.left (setup : Setup) (m : Machine) (ended : List Config) : Machine :=
  (ended.getLast?.map (Config.finalState setup)).getD m

theorem Machine.left_append (setup : Setup) (m : Machine) (ended further : List Config) :
    m.left setup (ended ++ further) = (m.left setup ended).left setup further := by
  unfold left
  rw [List.getLast?_append]
  cases further.getLast? <;> rfl

theorem Machine.left_contents (setup : Setup) {m m' : Machine} (same : m'.contents = m.contents)
    (ended : List Config) : (m'.left setup ended).contents = (m.left setup ended).contents := by
  unfold left
  cases ended.getLast? with
  | none => exact same
  | some c => rfl

/-- An evaluation is the last of its chronicle. -/
theorem Config.left_chronicle (setup : Setup) (m : Machine) (c : Config) :
    m.left setup (c.chronicle setup) = c.finalState setup := by
  rw [Config.chronicle_eq, Machine.left_append]
  rfl

/-- Evaluations end one after another. What each of them does itself starts from the lists and maps
that the one before it has left. -/
inductive Linked (setup : Setup) : Machine → List Config → Prop
  | done {m : Machine} : Linked setup m []
  | next {c : Config} {rest : List Config} {m m₁ : Machine} (starts : m₁.contents = m.contents)
      (closes : Closes c m₁.store (c.finalState setup).store)
      (further : Linked setup (c.finalState setup) rest) : Linked setup m (c :: rest)

namespace Linked

variable {setup : Setup} {m m' : Machine} {ended further : List Config}

/-- Only lists and maps matter of the state that there is at first. -/
theorem of_contents (h : Linked setup m ended) (same : m'.contents = m.contents) :
    Linked setup m' ended := by
  cases h with
  | done => exact .done
  | next starts closes further => exact .next (starts.trans same.symm) closes further

theorem append (h : Linked setup m ended) (h' : Linked setup (m.left setup ended) further) :
    Linked setup m (ended ++ further) := by
  induction h with
  | done => exact h'
  | @next c rest m m₁ starts closes _ ih =>
    refine .next starts closes (ih ?_)
    rw [← List.singleton_append, Machine.left_append] at h'
    exact h'

theorem split (h : Linked setup m (ended ++ further)) :
    Linked setup m ended ∧ Linked setup (m.left setup ended) further := by
  induction ended generalizing m with
  | nil => exact ⟨.done, h⟩
  | cons c rest ih =>
    cases h with
    | next starts closes h =>
      obtain ⟨first, last⟩ := ih h
      refine ⟨.next starts closes first, ?_⟩
      rw [← List.singleton_append, Machine.left_append]
      exact last

/-- What an evaluation makes of lists and maps has no cycle, unless it ties data together. -/
theorem step {c : Config} (h : Linked setup m (c :: further)) (acyclic : m.store.Acyclic)
    (free : ¬c.Ties) : (c.finalState setup).store.Acyclic := by
  cases h with
  | next starts closes _ => exact closes.acyclic (acyclic.of_contents starts) free

/-- So data without a cycle stay so as long as none of the evaluations ties data together. -/
theorem acyclic (h : Linked setup m ended) (acyclic : m.store.Acyclic) (free : ∀ c ∈ ended, ¬c.Ties) :
    (m.left setup ended).store.Acyclic := by
  induction ended generalizing m with
  | nil => exact acyclic
  | cons c rest ih =>
    rw [List.forall_mem_cons] at free
    rw [← List.singleton_append, Machine.left_append]
    refine ih ?_ (h.step acyclic free.1) free.2
    cases h with
    | next _ _ further => exact further

end Linked

/-- The chronicles of questions that hand on lists and maps are linked, if each of them is. -/
theorem Linked.of_handed {setup : Setup} {depth : Nat} {asked : List Question}
    {s s' : Array (Array Value) × Array (OrderedMap Key Entry)}
    (handed : Handed Machine.contents setup depth s asked s')
    (each : ∀ q ∈ asked, Linked setup q.machine (chronicle setup depth q.task q.machine)) :
    ∀ {m : Machine}, m.contents = s →
      Linked setup m (asked.flatMap fun q => chronicle setup depth q.task q.machine) ∧
      (m.left setup (asked.flatMap fun q => chronicle setup depth q.task q.machine)).contents = s' := by
  induction handed with
  | done => exact fun same => ⟨.done, same⟩
  | @next q rest s s' starts _ ih =>
    intro m same
    rw [List.forall_mem_cons] at each
    have first := each.1.of_contents (same.trans starts.symm)
    have left : m.left setup (chronicle setup depth q.task q.machine) = q.ended setup depth :=
      Config.left_chronicle setup m ⟨depth, q.task, q.machine⟩
    obtain ⟨others, ends⟩ := ih each.2 (m := q.ended setup depth) rfl
    rw [List.flatMap_cons, Machine.left_append, left]
    exact ⟨first.append (left ▸ others), ends⟩

/-- The chronicle of an evaluation is linked. -/
theorem Config.linked (setup : Setup) {c : Config} : ∀ {ρ : Renaming}, c.LikeItself ρ →
    Linked setup c.machine (c.chronicle setup) := by
  obtain ⟨depth, task, m⟩ := c
  induction depth generalizing task m with
  | zero =>
    intro ρ _
    -- out of levels nothing happens
    have nothing : Config.finalState setup ⟨0, task, m⟩ = m := by cases task <;> rfl
    exact .next rfl (.keep (congrArg Machine.contents nothing)) .done
  | succ depth ih =>
    intro ρ like
    obtain ⟨m₁, handed, closes⟩ := task.closing setup depth like.1
    have each : ∀ q ∈ task.course setup depth m,
        Linked setup q.machine (ContractScript.chronicle setup depth q.task q.machine) := by
      intro q asked
      obtain ⟨σ, -, like'⟩ := (Task.asks_of_course asked).likeItself like
      exact ih q.task q.machine like'
    obtain ⟨questions, left⟩ := Linked.of_handed handed each rfl
    exact questions.append (.next left.symm closes .done)

/-- What has ended when a point inside an evaluation is reached has left the lists and maps that there
are, and everything that is referred to is there. -/
theorem Past.contents {setup : Setup} {c c' : Config} {ended : List Config}
    (past : Past setup c ended c') : ∀ {ρ : Renaming}, c.LikeItself ρ →
      c'.machine.contents = (c.machine.left setup ended).contents ∧ ∃ σ, c'.LikeItself σ := by
  induction past with
  | here => exact fun like => ⟨rfl, _, like⟩
  | @step c c₁ c' link earlier later ended asked _ ih =>
    intro ρ like
    obtain ⟨depth, task, m⟩ := c
    cases depth with
    | zero =>
      have none : ([] : List (Link × Config)) = earlier ++ (link, c₁) :: later := asked
      simp at none
    | succ depth =>
      obtain ⟨m₁, handed, -⟩ := task.closing setup depth like.1
      -- the questions before this one, as configurations
      obtain ⟨before, others, split, rfl, last⟩ := List.map_eq_append_iff.mp asked
      obtain ⟨q, rest, rfl, same, rfl⟩ := List.map_eq_cons_iff.mp last
      cases same
      rw [split] at handed
      obtain ⟨s₁, first, further⟩ := handed.split
      have likes : ∀ r ∈ before ++ q :: rest, ∃ σ, ρ ≤ σ ∧ Config.LikeItself σ ⟨depth, r.task, r.machine⟩ :=
        fun r member => (Task.asks_of_course (split ▸ member)).likeItself like
      have each : ∀ r ∈ before,
          Linked setup r.machine (ContractScript.chronicle setup depth r.task r.machine) := by
        intro r member
        obtain ⟨σ, -, like'⟩ := likes r (List.mem_append_left _ member)
        exact Config.linked setup like'
      obtain ⟨-, left⟩ := Linked.of_handed first each rfl
      obtain ⟨σ, -, like'⟩ := likes q (List.mem_append_right _ List.mem_cons_self)
      cases further with
      | next starts _ =>
        obtain ⟨found, there⟩ := ih like'
        rw [found, Machine.left_append, List.flatMap_map]
        exact ⟨Machine.left_contents setup (starts.trans left.symm) ended, there⟩

/-! ## Scripts -/

theorem contents_runTop (setup : Setup) (s : Stmt) (m : Machine) :
    (finalState (runTop setup s) m).contents = (m.left setup ((Config.top setup s m).chronicle setup)).contents := by
  rw [Config.left_chronicle]
  exact view_runTop setup s m

/-- The chronicle of a program is linked, and leaves the lists and maps that there are when the
program ends. -/
theorem Program.linked (setup : Setup) (program : Program) : ∀ (last : Value) {m : Machine}
    {ρ : Renaming}, m.Like .self ρ m → Linked setup m (program.chronicle setup m) ∧
      (finalState (runAll setup last program) m).contents
        = (m.left setup (program.chronicle setup m)).contents := by
  induction program with
  | nil => exact fun _ _ _ _ => ⟨.done, rfl⟩
  | cons s rest ih =>
    intro last m ρ like
    have first : Linked setup m ((Config.top setup s m).chronicle setup) :=
      Config.linked setup (Config.likeItself_top like s)
    have top := contents_runTop setup s m
    rw [runAll, finalState_bind, Program.chronicle]
    unfold finalState at top
    cases run : runTop setup s m with
    | ok v m' =>
      rw [run] at top
      obtain ⟨σ, -, like', -⟩ := (runTop_follows s.like_self).of_ok like run
      obtain ⟨others, ends⟩ := ih v like'
      refine ⟨first.append (others.of_contents top.symm), ends.trans ?_⟩
      rw [Machine.left_append]
      exact Machine.left_contents setup top _
    | error e m' =>
      rw [run] at top
      rw [List.append_nil]
      exact ⟨first, top⟩

theorem Program.Reaches.contents {setup : Setup} {program : Program} {m : Machine}
    {ended : List Config} {c : Config} (reaches : program.Reaches setup m ended c) :
    ∀ {ρ : Renaming}, m.Like .self ρ m →
      c.machine.contents = (m.left setup ended).contents ∧ ∃ σ, c.LikeItself σ := by
  induction reaches with
  | first past => exact fun like => past.contents (Config.likeItself_top like _)
  | @later s rest m m₁ v ended c ran _ ih =>
    intro ρ like
    have top := contents_runTop setup s m
    unfold finalState at top
    rw [ran] at top
    obtain ⟨σ, -, like', -⟩ := (runTop_follows s.like_self).of_ok like ran
    obtain ⟨found, there⟩ := ih like'
    rw [found, Machine.left_append]
    exact ⟨Machine.left_contents setup top _, there⟩

namespace Session

theorem linked_ended {session : Session} (like : session.LikeItself) (source : String)
    (name : Option String) : Linked session.setup session.machine (session.ended source name) ∧
      (session.handle source name).2.machine.contents
        = (session.machine.left session.setup (session.ended source name)).contents := by
  obtain ⟨ρ, like⟩ := like.ready
  unfold ended handle
  dsimp only
  split
  · obtain ⟨program, -⟩ :=
      Program.ofSource session.setup.settings.testMode (name <|> session.file) source
    obtain ⟨linked, ends⟩ := Program.linked session.setup program .nil like
    have ready : session.ready.contents = session.machine.contents := rfl
    refine ⟨linked.of_contents ready.symm, ?_⟩
    have run : (({ session with machine := session.ready } : Session).runProgram
          ⟨source, name <|> session.file⟩ program).2.contents
        = (finalState (runAll session.setup .nil program) session.ready).contents :=
      (view_runProgram _ _ program).trans (view_interpret (fun _ _ => rfl) _ _ program session.ready)
    exact (run.trans ends).trans (Machine.left_contents _ ready _)
  · exact ⟨.done, rfl⟩

/-- The chronicle of a session is linked, and leaves the lists and maps that there are after its
scripts. -/
theorem linked {session : Session} (like : session.LikeItself)
    (scripts : List (String × Option String)) :
    Linked session.setup session.machine (session.chronicle scripts) ∧
      (session.after scripts).machine.contents
        = (session.machine.left session.setup (session.chronicle scripts)).contents := by
  induction scripts generalizing session with
  | nil => exact ⟨.done, rfl⟩
  | cons script rest ih =>
    obtain ⟨source, name⟩ := script
    obtain ⟨first, left⟩ := linked_ended like source name
    obtain ⟨others, ends⟩ := ih (like.handle source name)
    rw [setup_handle] at others ends
    refine ⟨first.append (others.of_contents left.symm), ends.trans ?_⟩
    rw [chronicle, Machine.left_append]
    exact Machine.left_contents _ left _

end Session

/-- Data come to contain themselves only by appending and putting. In the course of a session, as long
as nothing contains itself, an evaluation leaves things so once its questions have been answered,
unless it appends to a list, or puts into a map, something from which this list or map is reached. The
lists and maps that an evaluation finds are those that the last one before has left. So nothing
contains itself as long as no evaluation ties data together in this way, in the session and in every
evaluation that its scripts come to. And where nothing contains itself, showing, comparing and writing
keys come to an end, after no more levels than there are lists and maps. -/
theorem cycles_only_by_tying (setup : Setup) (host : Host) (scripts : List (String × Option String)) :
    -- one evaluation after another
    (∀ i c, ((Session.new setup host).chronicle scripts)[i]? = some c →
      ((Session.new setup host).machine.left setup
        (((Session.new setup host).chronicle scripts).take i)).store.Acyclic →
      ¬c.Ties → (c.finalState setup).store.Acyclic) ∧
    (∀ i, (∀ c ∈ ((Session.new setup host).chronicle scripts).take i, ¬c.Ties) →
      ((Session.new setup host).machine.left setup
        (((Session.new setup host).chronicle scripts).take i)).store.Acyclic) ∧
    ((Session.new setup host).after scripts).machine.contents
      = ((Session.new setup host).machine.left setup
          ((Session.new setup host).chronicle scripts)).contents ∧
    -- inside the next script
    (∀ source name ended c, ((Session.new setup host).after scripts).Reaches source name ended c →
      ended ++ c.chronicle setup <+: ((Session.new setup host).after scripts).ended source name ∧
      c.machine.contents = ((Session.new setup host).machine.left setup
        ((Session.new setup host).chronicle scripts ++ ended)).contents ∧
      (c.machine.store.Acyclic → (∀ c' ∈ c.chronicle setup, ¬c'.Ties) →
        (c.finalState setup).store.Acyclic)) ∧
    -- what ends
    (∀ s : Store, s.Acyclic → ∀ depth, s.lists.size + s.maps.size < depth → ∀ v,
      (∀ nested, ∃ text, s.show? depth nested v = some text) ∧
      (∀ w, ∃ answer, s.equal? depth v w = some answer) ∧ ∃ k, s.key? depth v = some k) := by
  have like := Session.likeItself_new setup host
  obtain ⟨linked, ends⟩ := Session.linked like scripts
  have same : ((Session.new setup host).after scripts).setup = setup := Session.setup_after _ _
  refine ⟨fun i c here acyclic free => ?_, fun i free => ?_, ends, ?_, fun s acyclic depth enough v =>
    acyclic.ends enough v⟩
  · obtain ⟨there, rfl⟩ := List.getElem?_eq_some_iff.mp here
    rw [← List.take_append_drop i ((Session.new setup host).chronicle scripts),
      List.drop_eq_getElem_cons there] at linked
    exact linked.split.2.step acyclic free
  · rw [← List.take_append_drop i ((Session.new setup host).chronicle scripts)] at linked
    exact linked.split.1.acyclic (Store.acyclic_empty.of_contents rfl) free
  · intro source name ended c reaches
    have before := reaches.prefix_ended
    obtain ⟨program, -, reaches⟩ := reaches
    obtain ⟨ρ, ready⟩ := (like.after scripts).ready
    rw [same] at reaches before
    obtain ⟨found, σ, there⟩ := reaches.contents ready
    refine ⟨before, ?_, fun acyclic free => ?_⟩
    · rw [found, Machine.left_append]
      have begun : ((Session.new setup host).after scripts).ready.contents
          = ((Session.new setup host).after scripts).machine.contents := rfl
      exact Machine.left_contents setup (begun.trans ends) ended
    · have whole := (Config.linked setup there).acyclic acyclic free
      rw [Config.left_chronicle] at whole
      exact whole

/-- A setup that can append, and has no modules. -/
def Setup.appending : Setup :=
  ⟨{}, [], [.append], ⟨8, 8⟩, Report.filled⟩

/-- A script that appends a list that holds another one to a third. -/
def untiedScript : String :=
  "_append([], [[]]);"

/-- What is appended does not lead to the list that takes it, and nothing contains itself. -/
theorem cycles_only_by_tying_apart : ∃ c,
    ((Session.new Setup.appending Host.bare).chronicle [(untiedScript, none)])[4]? = some c ∧
    c.task = .invoke (.native .append) [.list 0, .list 2] ∧ ¬c.Ties ∧
    (c.finalState Setup.appending).store.Acyclic ∧
    (c.finalState Setup.appending).store.show? 4 false (.list 0) = some "[[[]]]" := by
  have parsed : Program.ofSource false none untiedScript
      = ([.expression (.call (.variable ⟨"_append", ⟨none, 1⟩⟩) ⟨none, 1⟩
            [.list [], .list [.list []]])], []) := by
    cbv
  have script : (Session.new Setup.appending Host.bare).ended untiedScript none
      = Program.chronicle Setup.appending _ (Session.new Setup.appending Host.bare).ready :=
    Session.ended_of_ofSource parsed
  have whole : (Session.new Setup.appending Host.bare).chronicle [(untiedScript, none)]
      = Program.chronicle Setup.appending _ (Session.new Setup.appending Host.bare).ready :=
    (List.append_nil _).trans script
  obtain ⟨step, start, -⟩ := cycles_only_by_tying Setup.appending Host.bare [(untiedScript, none)]
  obtain ⟨c, here, task, lists, shown⟩ : ∃ c,
      ((Session.new Setup.appending Host.bare).chronicle [(untiedScript, none)])[4]? = some c ∧
      c.task = .invoke (.native .append) [.list 0, .list 2] ∧
      c.machine.store.lists = #[#[], #[], #[.list 1]] ∧
      (c.finalState Setup.appending).store.show? 4 false (.list 0) = some "[[[]]]" := by
    rw [whole]
    with_unfolding_all exact ⟨_, rfl, rfl, rfl, rfl⟩
  have tasks : (((Session.new Setup.appending Host.bare).chronicle [(untiedScript, none)]).take 4).map
        Config.task
      = [.evaluate (.variable ⟨"_append", ⟨none, 1⟩⟩), .evaluate (.list []), .evaluate (.list []),
          .evaluate (.list [.list []])] := by
    rw [whole]
    with_unfolding_all rfl
  -- nothing has been called before
  have uncalled : ∀ c' ∈ ((Session.new Setup.appending Host.bare).chronicle [(untiedScript, none)]).take 4,
      ∀ f arguments, c'.task ≠ .invoke f arguments := by
    intro c' member f arguments called
    have among := List.mem_map_of_mem (f := Config.task) member
    rw [tasks, called] at among
    simp at among
  have before := start 4 fun c' member ties => by
    cases ties with
    | append task => exact uncalled c' member _ _ task
    | putKey task => exact uncalled c' member _ _ task
    | putValue task => exact uncalled c' member _ _ task
  have parts : c.machine.store.parts (.list 2) = [.list 1] ∧ c.machine.store.parts (.list 1) = [] := by
    constructor <;> rw [Store.parts, Store.items, lists] <;> rfl
  have apart : ¬c.Ties := by
    intro ties
    cases ties with
    | append task' reach =>
      cases task.symm.trans task'
      obtain same | ⟨inner, contains, reach⟩ := reach.cases_head
      · cases same
      · rw [Store.Contains, parts.1, List.mem_singleton] at contains
        subst contains
        obtain same | ⟨none, contains, -⟩ := reach.cases_head
        · cases same
        · rw [Store.Contains, parts.2] at contains
          exact absurd contains List.not_mem_nil
    | putKey task' => cases task.symm.trans task'
    | putValue task' => cases task.symm.trans task'
  exact ⟨c, here, task, apart, step 4 c here before apart, shown⟩

end ContractScript
