/-
Data that are written down and run come back.

The text of data is a program: behind `var x =` it declares a variable whose value is
a copy of the data. The printer, the scanner, the parser and evaluation each have
their part in this, and each was looked at by itself; here the parts are put together
for a script that a session runs. The copy is equal to the data, because it has the
same key, and keys agree with equality.
-/
import ContractScript.Proofs.Run.Rebuilding

set_option autoImplicit false

namespace ContractScript

namespace Store

/-! ## A copy is equal to what it was copied from -/

/-- Data are a copy of themselves in every larger store. -/
theorem copies_self {s s' : Store} (hs : s.Extends s') {levels : Nat} : ∀ {v : Value},
    s.Data levels v → s.Copies s' levels v v := by
  induction levels with
  | zero => exact fun h => h.elim
  | succ levels ih =>
    intro v h
    cases v with
    | list id =>
      obtain ⟨inside, same⟩ := hs.lists id h.1
      refine ⟨id, rfl, inside, ?_⟩
      rw [same, List.forall₂_same]
      exact fun w hw => ih (h.2 w hw)
    | map id =>
      obtain ⟨inside, same⟩ := hs.maps id h.1
      refine ⟨id, rfl, inside, ?_⟩
      rw [same, List.forall₂_same]
      exact fun e he => ⟨rfl, ih (h.2 e he).1, ih (h.2 e he).2.1⟩
    | nil | bool | num | text => rfl
    | function | native => exact h.elim

theorem exists_of_forall₂_right {α β : Type} {R : α → β → Prop} {xs : List α} {ys : List β}
    (h : List.Forall₂ R xs ys) {y : β} (hy : y ∈ ys) : ∃ x ∈ xs, R x y := by
  induction h with
  | nil => exact absurd hy List.not_mem_nil
  | cons first _ ih =>
    rcases List.mem_cons.mp hy with rfl | hy
    · exact ⟨_, List.mem_cons_self, first⟩
    · obtain ⟨x, hx, hR⟩ := ih hy
      exact ⟨x, List.mem_cons_of_mem _ hx, hR⟩

/-- Copies of data have neither a NaN nor a container that contains itself. -/
theorem plain_of_copies {s s' : Store} {levels : Nat} : ∀ {v w : Value}, s.Data levels v →
    s.Copies s' levels v w → s'.Plain w := by
  induction levels with
  | zero => exact fun h => h.elim
  | succ levels ih =>
    intro v w h copy
    cases v with
    | list id =>
      obtain ⟨id', rfl, -, items⟩ := copy
      refine .ofChildren (fun u hu => ?_) (fun _ hx => (by cases hx)) (fun _ hm => (by cases hm))
      obtain ⟨x, hx, copied⟩ := exists_of_forall₂_right items hu
      exact ih (h.2 x hx) copied
    | map id =>
      obtain ⟨id', rfl, -, entries⟩ := copy
      refine .ofChildren (fun u hu => ?_) (fun _ hx => (by cases hx)) ?_
      · obtain ⟨entry, hentry, rfl⟩ := List.mem_map.mp hu
        obtain ⟨e', he', rfl⟩ := List.mem_map.mp hentry
        obtain ⟨e, he, copied⟩ := exists_of_forall₂_right entries he'
        exact ih (h.2 e he).2.1 copied.2.2
      · rintro _ ⟨⟩ k hk
        obtain ⟨e', he', rfl⟩ := List.mem_map.mp hk
        obtain ⟨e, he, same, copied, -⟩ := exists_of_forall₂_right entries he'
        obtain ⟨key, -, kept⟩ := h.2 e he
        -- the key of an entry is the key of a plain value
        rw [same]
        exact (ih key copied).hasNaN_key ((key?_of_copies copied _).trans kept)
    | num x =>
      cases copy
      refine .ofChildren (fun _ hu => absurd hu List.not_mem_nil) ?_ (fun _ hm => (by cases hm))
      rintro _ ⟨⟩
      exact h.isNaN_eq_false
    | nil | bool | text =>
      cases copy
      exact .ofChildren (fun _ hu => absurd hu List.not_mem_nil) (fun _ hx => (by cases hx))
        (fun _ hm => (by cases hm))
    | function | native => exact h.elim

theorem shallow_of_copies {s s' : Store} {levels : Nat} : ∀ {v w : Value} {depth : Nat},
    levels ≤ depth → s.Copies s' levels v w → s'.Shallow depth w := by
  induction levels with
  | zero => exact fun _ h => h.elim
  | succ levels ih =>
    intro v w depth enough copy
    obtain ⟨depth, rfl⟩ : ∃ d, depth = d + 1 := ⟨depth - 1, by omega⟩
    have below : levels ≤ depth := by omega
    intro u hu
    cases v with
    | list id =>
      obtain ⟨id', rfl, -, items⟩ := copy
      obtain ⟨x, -, copied⟩ := exists_of_forall₂_right items hu
      exact ih below copied
    | map id =>
      obtain ⟨id', rfl, -, entries⟩ := copy
      obtain ⟨entry, hentry, rfl⟩ := List.mem_map.mp hu
      obtain ⟨e', he', rfl⟩ := List.mem_map.mp hentry
      obtain ⟨e, -, copied⟩ := exists_of_forall₂_right entries he'
      exact ih below copied.2.2
    | nil | bool | num | text =>
      cases copy
      exact absurd hu List.not_mem_nil
    | function | native => exact copy.elim

/-- Data and a copy of them are equal in every store that has both. -/
theorem equal?_of_copies {s s' : Store} (hs : s.Extends s') {levels depth : Nat} {v w : Value}
    (h : s.Data levels v) (copy : s.Copies s' levels v w) (enough : levels ≤ depth) :
    s'.equal? depth v w = some true := by
  -- both have the key that the data had, and where values are comparable equal keys are equality
  have itself := copies_self hs h
  have left : s'.Comparable depth v := ⟨plain_of_copies h itself, shallow_of_copies enough itself⟩
  have right : s'.Comparable depth w := ⟨plain_of_copies h copy, shallow_of_copies enough copy⟩
  rw [agree_of_comparable left right, key?_of_copies itself, key?_of_copies copy, beq_self_eq_true]

/-! ## A declared name -/

theorem scope_define {s : Store} {id : ScopeId} (h : id < s.scopes.size) (name : String) (v : Value) :
    ((s.define id name v).scope id).bindings = (s.scope id).bindings.insert name v := by
  unfold scope define
  rw [Array.getD_eq_getD_getElem?, Array.getD_eq_getD_getElem?, Array.getElem?_modify, if_pos rfl,
    Array.getElem?_eq_getElem h]
  rfl

/-- A name has the value that it was given last in the scope itself. -/
theorem value?_define {s : Store} {id : ScopeId} (h : id < s.scopes.size) (name : String)
    (v : Value) : (s.define id name v).value? id name = some v := by
  have found : ((s.define id name v).scope id).bindings.get? name = some v := by
    rw [scope_define h, OrderedMap.get?_insert, if_pos (beq_self_eq_true name)]
  rw [value?, findOutward, found]

theorem extends_define (s : Store) (id : ScopeId) (name : String) (v : Value) :
    s.Extends (s.define id name v) :=
  ⟨fun _ h => ⟨h, rfl⟩, fun _ h => ⟨h, rfl⟩⟩

end Store

/-! ## Running a declaration -/

open EvalM

/-- The state after a name was given a value in the current scope. -/
def Machine.declaring (m : Machine) (name : String) (v : Value) : Machine :=
  { m with store := m.store.define m.scope name v }

theorem runAll_var {setup : Setup} {depth : Nat} (hdepth : setup.limits.depth = depth + 1)
    {name : Lexeme} {e : Expr} {w : Value} {m m' : Machine}
    (h : evaluate setup depth e m = .ok w m') :
    runAll setup .nil [.var name (some e)] m = .ok .nil (m'.declaring name.text w) := by
  -- a declaration is executed with all levels of the session, its value with one level less
  have executed : execute setup setup.limits.depth (.var name (some e)) m
      = .ok .next (m'.declaring name.text w) := by
    rw [hdepth, execute]
    exact bind_ok h
  have top : runTop setup (.var name (some e)) m = .ok .nil (m'.declaring name.text w) :=
    bind_ok executed
  rw [runAll]
  exact bind_ok top

/-- Reporting tests leaves all values and names as they are. -/
theorem reportTests_run (setup : Setup) (m : Machine) :
    ∃ m', reportTests setup m = .ok () m' ∧ m'.store = m.store ∧ m'.scope = m.scope := by
  have unfolded : reportTests setup m = (if m.tests.isEmpty then pure () else do
      emit .output (Report.ofTests setup.render m.tests)
      modify fun m => { m with tests := [] } : EvalM Unit) m := rfl
  rw [unfolded]
  split
  · exact ⟨m, rfl, rfl, rfl⟩
  · exact ⟨_, rfl, rfl, rfl⟩

theorem interpret_run {setup : Setup} (describe : Fault → String) {program : Program} {v : Value}
    {m m' : Machine} (h : runAll setup .nil program m = .ok v m') :
    ∃ m'', interpret setup describe program m = .ok (.ok v) m'' ∧ m''.store = m'.store ∧
      m''.scope = m'.scope := by
  obtain ⟨m'', reported, store, scope⟩ := reportTests_run setup m'
  have caught : catchFault (runAll setup .nil program) m = .ok (.ok v) m' := by
    unfold catchFault
    rw [h]
  refine ⟨m'', ?_, store, scope⟩
  rw [interpret]
  exact (bind_ok caught).trans (bind_ok reported)

/-- A script that is well formed and runs to its end succeeds. -/
theorem Session.handle_run {session : Session} {source : String} {name : Option String}
    {program : Program} {v : Value} {m : Machine}
    (parsed : Program.ofSource session.setup.settings.testMode (name <|> session.file) source
      = (program, []))
    (h : runAll session.setup .nil program { session.machine with events := [], frames := [] }
      = .ok v m) :
    ∃ session', session.handle source name = (.success v, session') ∧
      session'.machine.store = m.store ∧ session'.machine.scope = m.scope := by
  obtain ⟨m', run, store, scope⟩ := interpret_run
    (Report.ofFault ⟨source, name <|> session.file⟩) h
  refine ⟨{ session with machine := m', file := name <|> session.file }, ?_, store, scope⟩
  -- without a diagnostic the program is run, and its result is the outcome
  unfold Session.handle
  simp only [parsed, List.isEmpty_nil, if_true, runProgram, run]

/-! ## The round trip -/

/-- Printing data and running the text gives the data back. The script `var x = ...;` with the
text of data in it is scanned and parsed without a diagnostic, and running it binds `x` to a value
that is equal to the data, with the entries of all maps in the same order. The data may nest as
deeply as the parser can read and as the session may go, and there is a current scope in which `x`
can be bound. -/
theorem Session.data_round_trip (session : Session) (name : Option String) {levels : Nat} {v : Value}
    (data : session.machine.store.Data levels v)
    (shallow : session.machine.store.readingLevels levels v + 2 ≤ Parser.nesting)
    (limits : Parser.nesting ≤ session.setup.limits.depth)
    (live : session.machine.scope < session.machine.store.scopes.size) :
    ∃ text w session',
      (∀ depth, levels ≤ depth → session.machine.store.show? depth true v = some text) ∧
      (Program.ofSource session.setup.settings.testMode (name <|> session.file)
        ("var x = " ++ text ++ ";")).2 = [] ∧
      session.handle ("var x = " ++ text ++ ";") name = (.success .nil, session') ∧
      session'.machine.store.value? session'.machine.scope "x" = some w ∧
      session.machine.store.Copies session'.machine.store levels v w ∧
      ∀ depth, levels ≤ depth → session'.machine.store.equal? depth v w = some true := by
  obtain ⟨e, denoted, parsed⟩ := Program.ofSource_declarationText session.setup.settings.testMode
    (name <|> session.file) data shallow
  -- executing the declaration takes one level
  obtain ⟨depth, hdepth⟩ : ∃ d, session.setup.limits.depth = d + 1 :=
    ⟨session.setup.limits.depth - 1, by omega⟩
  have enough : session.machine.store.readingLevels levels v ≤ depth := by omega
  obtain ⟨w, m, run, copy, grows⟩ := evaluate_data data denoted enough
    { session.machine with events := [], frames := [] }
  obtain ⟨session', handled, store, scope⟩ := Session.handle_run parsed (runAll_var hdepth run)
  have inside : m.scope < m.store.scopes.size := by
    rw [grows.scope, grows.scopes]
    exact live
  -- the definition comes behind the copy, and changes no list and no map
  have larger := Store.extends_define m.store m.scope "x" w
  refine ⟨session.machine.store.written levels v, w, session', ?_, ?_, handled, ?_, ?_, ?_⟩
  · exact fun depth hd => Store.show?_eq data hd
  · exact congrArg Prod.snd parsed
  · rw [store, scope]
    exact Store.value?_define inside "x" w
  · rw [store]
    exact copy.extend larger
  · intro depth hd
    rw [store]
    exact Store.equal?_of_copies (grows.1.trans larger) data (copy.extend larger) hd

/-- A new session with a map in its store. The key of the first entry is a list of a negative
number and of a text that reads like a comment, and its value is an empty map. -/
def Session.keepingMap : Session :=
  let fresh := new (standard {}) ⟨⟨.empty⟩, "/", "/", [], ⟨[], 0⟩, ⟨[], 0⟩, ⟨[], [], [], .byClock⟩⟩
  let store := { fresh.machine.store with
    lists := #[#[.num (-1.5), .text "// b"]]
    maps := #[.ofList [(.list [.num (Number.canonicalBits (-1.5)), .text "// b"], ⟨.list 0, .map 1⟩),
      (.nil, ⟨.nil, .bool true⟩)], .empty] }
  { fresh with machine := { fresh.machine with store := store } }

theorem Number.written_negative : Number.Written (-1.5) where
  numeral := by
    have text : (Layout.plain.text (-1.5)).toList = '-' :: (['1'] ++ '.' :: ['5']) := by
      decide +kernel
    rw [text]
    exact .negative (.fraction ⟨List.all_eq_true.mp (by decide), List.cons_ne_nil _ _⟩
      ⟨List.all_eq_true.mp (by decide), List.cons_ne_nil _ _⟩)
  readBack := by decide +kernel

theorem Session.keepingMap_data : keepingMap.machine.store.Data 3 (.map 0) := by
  have key : keepingMap.machine.store.Data 2 (.list 0) := by
    refine ⟨by decide, ?_⟩
    intro w hw
    have items : (keepingMap.machine.store.items 0).toList = [.num (-1.5), .text "// b"] := rfl
    rw [items] at hw
    simp only [List.mem_cons, List.not_mem_nil, or_false] at hw
    rcases hw with rfl | rfl
    · exact Number.written_negative
    · exact (by decide : '"' ∉ "// b".toList)
  have value : keepingMap.machine.store.Data 2 (.map 1) :=
    ⟨by decide, fun e he => absurd he List.not_mem_nil⟩
  refine ⟨by decide, ?_⟩
  intro e he
  have entries : (keepingMap.machine.store.content 0).entries
      = [(.list [.num (Number.canonicalBits (-1.5)), .text "// b"], ⟨.list 0, .map 1⟩),
        (.nil, ⟨.nil, .bool true⟩)] := rfl
  rw [entries] at he
  simp only [List.mem_cons, List.not_mem_nil, or_false] at he
  rcases he with rfl | rfl
  · exact ⟨key, value, rfl⟩
  · exact ⟨trivial, trivial, rfl⟩

theorem Session.keepingMap_round_trip :
    ∃ text w session',
      (∀ depth, 3 ≤ depth → keepingMap.machine.store.show? depth true (.map 0) = some text) ∧
      (Program.ofSource false none ("var x = " ++ text ++ ";")).2 = [] ∧
      keepingMap.handle ("var x = " ++ text ++ ";") none = (.success .nil, session') ∧
      session'.machine.store.value? session'.machine.scope "x" = some w ∧
      keepingMap.machine.store.Copies session'.machine.store 3 (.map 0) w ∧
      ∀ depth, 3 ≤ depth → session'.machine.store.equal? depth (.map 0) w = some true :=
  data_round_trip keepingMap none keepingMap_data (by decide +kernel) (by decide) (by decide)

end ContractScript
