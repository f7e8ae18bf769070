/-
Maps that are filled one entry after another.

A map gets entries from the literal that makes it, from the pairs that it is built of, or from the
function that puts one in. Each time the shown key is kept under the key that it has at this moment, in
the store as it is by then, so what a map holds is what the insertions have written. From then on other
things may happen, to other maps and lists and even to the values in the map; as long as the shown
keys are left alone, they still have the keys under which their entries are kept.
-/
import ContractScript.Proofs.Run.Keeping
import ContractScript.Proofs.Value.Dictionary

set_option autoImplicit false

namespace ContractScript

open EvalM

/-! ## Insertions -/

/-- An entry that is written into a map, with the store at this moment and the key that the shown key has
in it. -/
structure Insertion where
  store : Store
  entry : Entry
  key : Key
  levels : Nat
  taken : store.key? levels entry.key = some key

namespace Insertion

variable {i j : Insertion} {s : Store}

/-- What is written where. -/
def pair (i : Insertion) : Key × Entry := (i.key, i.entry)

/-- The shown key is free of NaN and of cycles when it is written, and is left alone from then on. -/
structure Steady (i : Insertion) (s : Store) : Prop where
  plain : i.store.Plain i.entry.key
  alone : i.store.LeavesAlone s i.entry.key

theorem Steady.key?_eq (steady : i.Steady s) : s.key? i.levels i.entry.key = some i.key :=
  (steady.alone.key?_eq i.levels).trans i.taken

/-- What is equal to the shown key has the key under which the entry is kept. -/
theorem Steady.equals_iff (steady : i.Steady s) {k : Value} (free : s.NaNFree k) :
    s.Equals i.entry.key k ↔ ∃ levels, s.key? levels k = some i.key := by
  rw [Store.equals_iff (steady.alone.plain steady.plain) free]
  constructor
  · rintro ⟨levels, key, shown, found⟩
    rw [Store.key?_unique steady.key?_eq shown]
    exact ⟨levels, found⟩
  · rintro ⟨levels, found⟩
    exact ⟨max i.levels levels, i.key, Store.key?_mono (Nat.le_max_left _ _) steady.key?_eq,
      Store.key?_mono (Nat.le_max_right _ _) found⟩

theorem Steady.equals_iff_key (steady : i.Steady s) (steady' : j.Steady s) :
    s.Equals i.entry.key j.entry.key ↔ i.key = j.key := by
  rw [steady.equals_iff (steady'.alone.plain steady'.plain).nanFree]
  constructor
  · rintro ⟨levels, found⟩
    exact Store.key?_unique found steady'.key?_eq
  · intro same
    rw [same]
    exact ⟨j.levels, steady'.key?_eq⟩

end Insertion

/-! ## Filling a map -/

/-- The entries of a map literal are evaluated one after another, and each is written once its value is
known. -/
inductive Entered (value : Expr → EvalM Value) :
    List (Expr × Expr) → Machine → List Insertion → Machine → Prop
  | nil {m : Machine} : Entered value [] m [] m
  | cons {k v : Expr} {rest : List (Expr × Expr)} {m m₁ m₂ m' : Machine} {i : Insertion}
      {is : List Insertion} (shown : value k m = .ok i.entry.key m₁) (item : value v m₁ = .ok i.entry.value m₂)
      (now : i.store = m₂.store) (others : Entered value rest m₂ is m') :
      Entered value ((k, v) :: rest) m (i :: is) m'

/-- A map has been filled by a sequence of insertions. -/
inductive Filled (setup : Setup) (id : MapId) : List Insertion → Store → Prop
  /-- It was made by a literal. -/
  | literal {depth : Nat} {pairs : List (Expr × Expr)} {m m₁ m' : Machine} {is : List Insertion}
      (entered : Entered (evaluate setup depth) pairs m is m₁)
      (run : evaluate setup (depth + 1) (.map pairs) m = .ok (.map id) m') : Filled setup id is m'.store
  /-- It was built of pairs. -/
  | built {s s' : Store} {is : List Insertion} (now : ∀ i ∈ is, i.store = s)
      (made : s.newMap (.ofList (is.map Insertion.pair)) = (id, s')) : Filled setup id is s'
  /-- Another entry was put in. -/
  | put {depth : Nat} {place : Place} {m m' : Machine} {is : List Insertion} {i : Insertion} {r : Value}
      (filled : Filled setup id is m.store) (now : i.store = m.store)
      (run : callValue setup depth place (.native .put) [.map id, i.entry.key, i.entry.value] m = .ok r m') :
      Filled setup id (is ++ [i]) m'.store
  /-- Something else has happened since. -/
  | meanwhile {s s' : Store} {is : List Insertion} (filled : Filled setup id is s) (there : s'.Has (.map id))
      (same : s'.content id = s.content id) : Filled setup id is s'

section Entered

variable {depth : Nat} {value : Expr → EvalM Value} {pairs : List (Expr × Expr)} {m m₁ m' : Machine}
  {is : List Insertion}

theorem of_keyOf {v : Value} {key : Key} (run : keyOf depth v m = .ok key m') :
    m' = m ∧ m.store.key? (depth / 2 + 1) v = some key := by
  change orTooDeep (m.store.key? (depth / 2 + 1) v) m = _ at run
  cases found : m.store.key? (depth / 2 + 1) v with
  | none =>
    rw [found] at run
    cases run
  | some k =>
    rw [found] at run
    cases run
    exact ⟨rfl, rfl⟩

/-- Whatever a literal writes is a sequence of insertions. -/
theorem exists_entered {content content' : OrderedMap Key Entry}
    (run : entries depth value content pairs m = .ok content' m') : ∃ is, Entered value pairs m is m' := by
  induction pairs generalizing content m with
  | nil =>
    cases run
    exact ⟨[], .nil⟩
  | cons p rest ih =>
    obtain ⟨shown, m₁, first, run⟩ := bind_eq_ok run
    obtain ⟨item, m₂, second, run⟩ := bind_eq_ok run
    obtain ⟨k, m₃, keyed, further⟩ := bind_eq_ok run
    obtain ⟨rfl, taken⟩ := of_keyOf keyed
    obtain ⟨is, others⟩ := ih further
    exact ⟨⟨_, ⟨shown, item⟩, k, _, taken⟩ :: is, .cons first second rfl others⟩

/-- What a literal writes is what its insertions write. -/
theorem Entered.content_eq (entered : Entered value pairs m is m₁) : ∀ {content content' : OrderedMap Key Entry},
    entries depth value content pairs m = .ok content' m' →
    m' = m₁ ∧ content' = (is.map Insertion.pair).foldl (fun c p => c.insert p.1 p.2) content := by
  induction entered with
  | nil =>
    rintro content content' ⟨⟩
    exact ⟨rfl, rfl⟩
  | cons shown item now _ ih =>
    rename_i i is _
    intro content content' run
    rw [entries, bind_ok shown, bind_ok item] at run
    obtain ⟨k, m₃, keyed, further⟩ := bind_eq_ok run
    obtain ⟨rfl, taken⟩ := of_keyOf keyed
    -- the number of levels may differ, but there is only one key
    obtain rfl := Store.key?_unique (now ▸ i.taken) taken
    exact ih further

end Entered

/-! ## What the map holds -/

section Content

variable {setup : Setup} {depth : Nat} {place : Place} {id : MapId} {is : List Insertion} {m m' : Machine}
  {s : Store} {v r : Value}

/-- The call of a built-in function has done what the function does. -/
theorem of_callValue_native {f : Native} {vs : List Value}
    (run : callValue setup depth place (.native f) vs m = .ok v m') : ∃ levels frames m₁,
      f.call setup levels vs { m with frames := frames } = .ok v m₁ ∧ m' = { m₁ with frames := m.frames } := by
  -- a call takes two levels, and without them it does not end well
  cases depth with
  | zero => cases run
  | succ depth =>
    rw [callValue_succ, get_bind] at run
    change (if vs.length != f.arity then _ else inCall ⟨f.name, place⟩ (closeLexeme place) _) m = _ at run
    split at run
    · cases run
    · unfold inCall at run
      dsimp only at run
      split at run
      · rename_i v' m₁ ended
        cases run
        cases depth with
        | zero => cases ended
        | succ depth =>
          rw [invoke] at ended
          exact ⟨depth, _, m₁, ended, rfl⟩
      · cases run

theorem of_put {k v : Value} (run : callValue setup depth place (.native .put) [.map id, k, v] m = .ok r m') :
    ∃ levels key, m.store.key? levels k = some key ∧ m'.store = m.store.put id key ⟨k, v⟩ := by
  obtain ⟨levels, frames, m₁, ended, rfl⟩ := of_callValue_native run
  obtain ⟨id', m₂, target, rest⟩ := bind_eq_ok ended
  cases target
  obtain ⟨key, m₃, keyed, rest⟩ := bind_eq_ok rest
  obtain ⟨rfl, taken⟩ := of_keyOf keyed
  cases rest
  exact ⟨_, key, taken, rfl⟩

theorem of_map_literal {pairs : List (Expr × Expr)}
    (run : evaluate setup (depth + 1) (.map pairs) m = .ok v m') : ∃ content m₁,
      entries depth (evaluate setup depth) .empty pairs m = .ok content m₁ ∧
      v = .map m₁.store.maps.size ∧ m'.store = (m₁.store.newMap content).2 := by
  rw [evaluate] at run
  obtain ⟨content, m₁, listed, rest⟩ := bind_eq_ok run
  cases rest
  exact ⟨content, m₁, listed, rfl, rfl⟩

/-- Every map that a literal makes has been filled. -/
theorem exists_filled {pairs : List (Expr × Expr)}
    (run : evaluate setup (depth + 1) (.map pairs) m = .ok v m') :
    ∃ id is, v = .map id ∧ Filled setup id is m'.store := by
  obtain ⟨content, m₁, listed, rfl, -⟩ := of_map_literal run
  obtain ⟨is, entered⟩ := exists_entered listed
  exact ⟨_, is, rfl, .literal entered run⟩

theorem Store.content_newMap (s : Store) (content : OrderedMap Key Entry) :
    (s.newMap content).2.Has (.map s.maps.size) ∧ (s.newMap content).2.content s.maps.size = content := by
  refine ⟨?_, Store.getD_push_size _ _ _⟩
  show s.maps.size < (s.maps.push content).size
  rw [Array.size_push]
  exact Nat.lt_succ_self _

theorem Store.content_put (there : s.Has (.map id)) (key : Key) (e : Entry) :
    (s.put id key e).Has (.map id) ∧ (s.put id key e).content id = (s.content id).insert key e := by
  have inside : id < s.maps.size := there
  refine ⟨?_, ?_⟩
  · show id < (s.maps.modify id _).size
    rwa [Array.size_modify]
  · unfold Store.content Store.put
    rw [Array.getD_eq_getD_getElem?, Array.getD_eq_getD_getElem?, Array.getElem?_modify, if_pos rfl,
      Array.getElem?_eq_getElem inside]
    rfl

/-- A map that has been filled holds what the insertions have written. -/
theorem Filled.content_eq (filled : Filled setup id is s) :
    s.Has (.map id) ∧ s.content id = .written Insertion.pair is := by
  induction filled with
  | literal entered run =>
    obtain ⟨content, m₁, listed, same, store⟩ := of_map_literal run
    obtain ⟨rfl, rfl⟩ := entered.content_eq listed
    cases same
    rw [store]
    exact Store.content_newMap _ _
  | built now made =>
    cases made
    exact Store.content_newMap _ _
  | put filled now run ih =>
    -- what the call has written is the insertion, since both took the key in the same store
    obtain ⟨levels, key, taken, store⟩ := of_put run
    obtain rfl := Store.key?_unique taken (now ▸ Insertion.taken _)
    obtain ⟨there, content⟩ := Store.content_put ih.1 _ _
    rw [store, OrderedMap.written_concat, ← ih.2]
    exact ⟨there, content⟩
  | meanwhile filled there same ih => exact ⟨there, same.trans ih.2⟩

end Content

/-! ## What the map answers -/

section Answers

variable {setup : Setup} {depth : Nat} {place : Place} {id : MapId} {is : List Insertion} {m : Machine}
  {s : Store} {k : Value} {key : Key}

theorem callValue_len : callValue setup (depth + 2) place (.native .len) [.map id] m
    = .ok (.num (Number.ofInt (m.store.content id).size)) m :=
  callValue_native rfl rfl rfl

theorem callValue_shown : callValue setup (depth + 2) place (.native .keys) [.map id] m
    = .ok (.list m.store.lists.size) { m with store :=
        (m.store.newList ((m.store.content id).values.map Entry.key).toArray).2 } :=
  callValue_native rfl rfl rfl

theorem callValue_values : callValue setup (depth + 2) place (.native .values) [.map id] m
    = .ok (.list m.store.lists.size) { m with store :=
        (m.store.newList ((m.store.content id).values.map Entry.value).toArray).2 } :=
  callValue_native rfl rfl rfl

theorem callValue_put {v : Value} (found : m.store.key? (depth / 2 + 1) k = some key) :
    callValue setup (depth + 2) place (.native .put) [.map id, k, v] m
      = .ok (.map id) { m with store := m.store.put id key ⟨k, v⟩ } := by
  have keyed : keyOf depth k { m with frames := ⟨Native.put.name, place⟩ :: m.frames } = .ok key _ :=
    keyOf_eq found
  exact callValue_native rfl rfl (bind_ok keyed)

/-- A key with not too many levels can always be put in. -/
theorem Filled.exists_put (filled : Filled setup id is m.store) (shallow : m.store.Shallow (depth / 2 + 1) k)
    (place : Place) (v : Value) : ∃ i m', i.entry = ⟨k, v⟩ ∧
      callValue setup (depth + 2) place (.native .put) [.map id, k, v] m = .ok (.map id) m' ∧
      Filled setup id (is ++ [i]) m'.store := by
  obtain ⟨key, found⟩ := Store.exists_key_of_shallow shallow
  have run : callValue setup (depth + 2) place (.native .put) [.map id, k, v] m = .ok (.map id) _ :=
    callValue_put found
  let i : Insertion := ⟨m.store, ⟨k, v⟩, key, _, found⟩
  exact ⟨i, _, rfl, run, @Filled.put _ _ _ _ _ _ _ i _ filled rfl run⟩

variable (filled : Filled setup id is s) (steady : ∀ i ∈ is, i.Steady s)
include steady

/-- A shown key is equal to a value that has a key exactly if its entry is kept under that key. -/
theorem equals_iff_key_eq (free : s.NaNFree k) (found : s.key? depth k = some key) {i : Insertion}
    (there : i ∈ is) : s.Equals i.entry.key k ↔ i.key = key := by
  rw [(steady i there).equals_iff free]
  constructor
  · rintro ⟨levels, same⟩
    exact Store.key?_unique same found
  · rintro rfl
    exact ⟨depth, found⟩

include filled

/-- A value is in the map exactly if one of the keys that were inserted is equal to it. -/
theorem Filled.contains_iff (free : s.NaNFree k) :
    (∃ levels key, s.key? levels k = some key ∧ (s.content id).contains key = true) ↔
      ∃ i ∈ is, s.Equals i.entry.key k := by
  rw [filled.content_eq.2]
  constructor
  · rintro ⟨levels, key, found, present⟩
    obtain ⟨i, there, same⟩ := OrderedMap.contains_written.mp present
    exact ⟨i, there, (equals_iff_key_eq steady free found there).mpr same⟩
  · rintro ⟨i, there, equal⟩
    obtain ⟨levels, found⟩ := ((steady i there).equals_iff free).mp equal
    exact ⟨levels, i.key, found, OrderedMap.contains_written.mpr ⟨i, there, rfl⟩⟩

/-- Under the key of a value the map has what the last insertion with an equal key has written. -/
theorem Filled.get?_last (free : s.NaNFree k) (found : s.key? depth k = some key) {i : Fin is.length}
    (equal : s.Equals is[i].entry.key k) (latest : ∀ j : Fin is.length, s.Equals is[j].entry.key k → j ≤ i) :
    (s.content id).get? key = some is[i].entry := by
  have iff (j : Fin is.length) : s.Equals is[j].entry.key k ↔ is[j].key = key :=
    equals_iff_key_eq steady free found (List.getElem_mem j.isLt)
  have present : (s.content id).contains key = true := by
    rw [filled.content_eq.2]
    exact OrderedMap.contains_written.mpr ⟨is[i], List.getElem_mem i.isLt, (iff i).mp equal⟩
  obtain ⟨entry, here⟩ := Option.isSome_iff_exists.mp present
  rw [filled.content_eq.2] at here ⊢
  obtain ⟨j, written, last⟩ := OrderedMap.exists_last here
  -- both are the last of the insertions with this key
  have same : j = i := by
    refine le_antisymm (latest j ((iff j).mpr (congrArg Prod.fst written))) ?_
    exact last i ((iff i).mp equal)
  rw [here, ← same]
  exact congrArg some (congrArg Prod.snd written).symm

/-- Nothing is found for a value that is equal to none of the keys. -/
theorem Filled.get?_none (free : s.NaNFree k) (found : s.key? depth k = some key)
    (none' : ∀ i ∈ is, ¬s.Equals i.entry.key k) : (s.content id).get? key = none := by
  by_contra present
  have contains : (s.content id).contains key = true := Option.isSome_iff_ne_none.mpr present
  obtain ⟨i, there, equal⟩ := (filled.contains_iff steady free).mp ⟨depth, key, found, contains⟩
  exact none' i there equal

/-- The entries of the map stand for the classes of keys that are equal, in the order in which the
classes were begun, and each shows what the last insertion of its class has written. -/
theorem Filled.exists_classes : ∃ count, ∃ classes : Classes (fun i j : Fin is.length =>
      s.Equals is[i].entry.key is[j].entry.key) count,
    (s.content id).size = count ∧
    (s.content id).values = List.ofFn fun c => is[classes.last c].entry := by
  obtain ⟨count, classes, size, entries⟩ := OrderedMap.exists_classes Insertion.pair is
  rw [filled.content_eq.2]
  have agree (i j : Fin is.length) :=
    (steady is[i] (List.getElem_mem i.isLt)).equals_iff_key (steady is[j] (List.getElem_mem j.isLt))
  refine ⟨count, classes.congr agree, size, ?_⟩
  rw [OrderedMap.values, entries, List.map_ofFn]
  rfl

end Answers

/-- A map is a dictionary up to equality that remembers the order of insertion. If the keys that were
inserted are free of NaN and cycles and are left alone from then on, what it holds for a value is what
the last insertion with an equal key has written, if there is one, and it lists one entry for each class
of equal keys, in the order in which the classes were begun. -/
theorem Filled.dictionary {setup : Setup} {id : MapId} {is : List Insertion} {m : Machine}
    (filled : Filled setup id is m.store) (steady : ∀ i ∈ is, i.Steady m.store) :
    (∀ k, m.store.NaNFree k →
      ((∃ levels key, m.store.key? levels k = some key ∧ (m.store.content id).contains key = true) ↔
        ∃ i ∈ is, m.store.Equals i.entry.key k) ∧
      ∀ depth place, m.store.Shallow (depth / 2 + 1) k →
        (∀ i : Fin is.length, m.store.Equals is[i].entry.key k →
          (∀ j : Fin is.length, m.store.Equals is[j].entry.key k → j ≤ i) →
          indexValue depth place (.map id) k m = .ok is[i].entry.value m) ∧
        ((∀ i ∈ is, ¬m.store.Equals i.entry.key k) →
          indexValue depth place (.map id) k m = .error (.at (bracketLexeme place) .keyNotFound) m)) ∧
    ∃ count, ∃ classes : Classes (fun i j : Fin is.length =>
        m.store.Equals is[i].entry.key is[j].entry.key) count,
      (m.store.content id).values = List.ofFn (fun c => is[classes.last c].entry) ∧
      ∀ depth place,
        callValue setup (depth + 2) place (.native .len) [.map id] m
          = .ok (.num (Number.ofInt count)) m ∧
        callValue setup (depth + 2) place (.native .keys) [.map id] m
          = .ok (.list m.store.lists.size) { m with store := (m.store.newList
              (List.ofFn fun c => is[classes.last c].entry.key).toArray).2 } ∧
        callValue setup (depth + 2) place (.native .values) [.map id] m
          = .ok (.list m.store.lists.size) { m with store := (m.store.newList
              (List.ofFn fun c => is[classes.last c].entry.value).toArray).2 } := by
  refine ⟨fun k free => ⟨filled.contains_iff steady free, fun depth place shallow => ?_⟩, ?_⟩
  -- the value has a key, and equal values have the same one
  · obtain ⟨key, found⟩ := Store.exists_key_of_shallow shallow
    refine ⟨fun i equal latest => ?_, fun none' => ?_⟩
    · rw [indexValue_key found, filled.get?_last steady free found equal latest]
    · rw [indexValue_key found, filled.get?_none steady free found none']
  · obtain ⟨count, classes, size, values⟩ := filled.exists_classes steady
    refine ⟨count, classes, values, fun depth place => ⟨?_, ?_, ?_⟩⟩
    · rw [callValue_len, size]
    · rw [callValue_shown, values, List.map_ofFn]
      rfl
    · rw [callValue_values, values, List.map_ofFn]
      rfl

namespace Collisions

/-- The number one. -/
def one : Value := .num (Number.ofInt 1)

/-- The key of the number one. -/
def oneKey : Key := .num (Number.canonicalBits (Number.ofInt 1))

/-- A state with nothing in it. -/
def start : Machine := ⟨.empty, 0, [], none, [], [], [], Host.bare⟩

/-- A list of one, the number one and a truth value, which are three keys. -/
def pairs : List (Expr × Expr) :=
  [(.list [.literal (.num (Number.ofInt 1))], .literal (.text "a")),
    (.literal (.num (Number.ofInt 1)), .literal (.text "b")), (.literal (.bool true), .literal (.text "c"))]

/-- The state with the list. -/
def listed : Machine := { start with store := (Store.empty.newList #[one]).2 }

/-- What is written by the literal. -/
def first : List Insertion :=
  [⟨listed.store, ⟨.list 0, .text "a"⟩, .list [oneKey], 2, rfl⟩,
    ⟨listed.store, ⟨one, .text "b"⟩, oneKey, 1, rfl⟩,
    ⟨listed.store, ⟨.bool true, .text "c"⟩, .bool true, 1, rfl⟩]

/-- The state with the map. -/
def made : Machine := { listed with store := (listed.store.newMap (.written Insertion.pair first)).2 }

/-- The state with another list of one. -/
def again : Machine := { made with store := (made.store.newList #[one]).2 }

/-- What is put in, which is the first key once more. -/
def second : Insertion := ⟨again.store, ⟨.list 1, .text "d"⟩, .list [oneKey], 2, rfl⟩

/-- The state at the end. -/
def final : Machine := { again with store := again.store.put 0 second.key second.entry }

theorem filled (setup : Setup) : Filled setup 0 (first ++ [second]) final.store := by
  have entered : Entered (evaluate setup 3) pairs start first listed :=
    .cons rfl rfl rfl (.cons rfl rfl rfl (.cons rfl rfl rfl .nil))
  have run : evaluate setup 4 (.map pairs) start = .ok (.map 0) made := by
    rfl
  have there : Filled setup 0 first again.store :=
    .meanwhile (.literal entered run) (show 0 < made.store.maps.size by decide) rfl
  have put : callValue setup 4 ⟨none, 1⟩ (.native .put) [.map 0, .list 1, .text "d"] again = .ok (.map 0) final :=
    callValue_put rfl
  exact .put there rfl put

theorem plain_one (s : Store) : s.Plain one := by
  have proper : Number.isNaN (Number.ofInt 1) = false := by decide +kernel
  exact .ofChildren (fun _ h => absurd h List.not_mem_nil) (fun _ same => Value.num.inj same ▸ proper)
    fun _ other => (by cases other)

theorem alone_one (s s' : Store) : s.LeavesAlone s' one :=
  .ofChildren trivial fun _ h => absurd h List.not_mem_nil

theorem steady_list {i : Insertion} {id : ListId} (key : i.entry.key = .list id)
    (items : i.store.items id = #[one]) (still : final.store.items id = #[one]) : i.Steady final.store := by
  have inside {w : Value} (held : w ∈ i.store.children (.list id)) : w = one := by
    rw [Store.children, items] at held
    exact List.mem_singleton.mp held
  constructor
  · rw [key]
    exact .ofChildren (fun w held => inside held ▸ plain_one _) (fun _ other => (by cases other))
      fun _ other => (by cases other)
  · rw [key]
    exact .ofChildren (still.trans items.symm) fun w held => inside held ▸ alone_one _ _

theorem steady : ∀ i ∈ first ++ [second], i.Steady final.store := by
  have truth : Insertion.Steady ⟨listed.store, ⟨.bool true, .text "c"⟩, .bool true, 1, rfl⟩ final.store :=
    ⟨.ofChildren (fun _ h => absurd h List.not_mem_nil) (fun _ other => (by cases other))
        fun _ other => (by cases other),
      .ofChildren trivial fun _ h => absurd h List.not_mem_nil⟩
  simp only [first, List.cons_append, List.nil_append, List.forall_mem_cons]
  exact ⟨steady_list rfl rfl rfl, ⟨plain_one _, alone_one _ _⟩, truth, steady_list rfl rfl rfl,
    fun _ h => absurd h List.not_mem_nil⟩

/-- The list that was a key first finds what was put in under its equal, and the number finds what was
written under it and not under the truth value. -/
theorem number_and_list_kept_apart : (∀ setup, Filled setup 0 (first ++ [second]) final.store) ∧
    (∀ i ∈ first ++ [second], i.Steady final.store) ∧
    indexValue 2 ⟨none, 1⟩ (.map 0) (.list 0) final = .ok (.text "d") final ∧
    indexValue 2 ⟨none, 1⟩ (.map 0) one final = .ok (.text "b") final ∧
    ∃ count, ∃ classes : Classes (fun i j : Fin (first ++ [second]).length =>
        final.store.Equals (first ++ [second])[i].entry.key (first ++ [second])[j].entry.key) count,
      (final.store.content 0).values = List.ofFn fun c => (first ++ [second])[classes.last c].entry := by
  have dictionary := (filled (Session.standard {})).dictionary steady
  have list := (steady _ List.mem_cons_self).alone.plain (steady _ List.mem_cons_self).plain
  -- the keys of the number and of the list that holds it are not the same
  have listKey : final.store.key? 2 (.list 0) = some (.list [oneKey]) := rfl
  have numberKey : final.store.key? 2 one = some oneKey := rfl
  refine ⟨filled, steady, ?_, ?_, ?_⟩
  · have lookup := (dictionary.1 (.list 0) list.nanFree).2 2 ⟨none, 1⟩ (Store.shallow_of_key 2 listKey)
    refine lookup.1 ⟨3, by decide⟩ ?_ fun j _ => Nat.le_of_lt_succ j.isLt
    exact (equals_iff_key_eq steady list.nanFree listKey (List.getElem_mem _)).mpr rfl
  · have free := (plain_one final.store).nanFree
    have lookup := (dictionary.1 one free).2 2 ⟨none, 1⟩ (Store.shallow_of_key 2 numberKey)
    refine lookup.1 ⟨1, by decide⟩ ?_ fun j equal => ?_
    · exact (equals_iff_key_eq steady free numberKey (List.getElem_mem _)).mpr rfl
    · -- what comes later is a truth value and a list
      have key := (equals_iff_key_eq steady free numberKey (List.getElem_mem j.isLt)).mp equal
      by_contra later
      have places : j.val = 2 ∨ j.val = 3 := by
        have bound : j.val < 4 := j.isLt
        have behind : ¬j.val ≤ 1 := later
        omega
      obtain ⟨j, bound⟩ := j
      rcases places with rfl | rfl
      · cases key
      · cases key
  · obtain ⟨count, classes, values, -⟩ := dictionary.2
    exact ⟨count, classes, values⟩

end Collisions

end ContractScript
