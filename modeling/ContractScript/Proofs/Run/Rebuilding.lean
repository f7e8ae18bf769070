/-
Evaluating an expression that denotes data builds a copy of the data.

The copy is made of new lists and maps, which are added to those that exist; nothing
else about the state changes. A copy has the same constants at the same places, and
its maps have the same entries in the same order, under the same keys. The last point
is why the keys of data have to be the ones their entries are kept under: the keys of
a new map are computed from the copies.
-/
import ContractScript.Proofs.Program.Literals
import ContractScript.Proofs.Run.Restoration

set_option autoImplicit false

namespace ContractScript

namespace Store

/-! ## Larger stores -/

/-- The lists and maps of a store are in another one as they are. -/
structure Extends (s s' : Store) : Prop where
  lists : ∀ id, id < s.lists.size → id < s'.lists.size ∧ s'.items id = s.items id
  maps : ∀ id, id < s.maps.size → id < s'.maps.size ∧ s'.content id = s.content id

theorem Extends.refl (s : Store) : s.Extends s :=
  ⟨fun _ h => ⟨h, rfl⟩, fun _ h => ⟨h, rfl⟩⟩

theorem Extends.trans {s s' s'' : Store} (h : s.Extends s') (h' : s'.Extends s'') :
    s.Extends s'' := by
  constructor
  · intro id hid
    obtain ⟨hid', items⟩ := h.lists id hid
    obtain ⟨hid'', items'⟩ := h'.lists id hid'
    exact ⟨hid'', items'.trans items⟩
  · intro id hid
    obtain ⟨hid', content⟩ := h.maps id hid
    obtain ⟨hid'', content'⟩ := h'.maps id hid'
    exact ⟨hid'', content'.trans content⟩

theorem getD_push_lt {α : Type} (xs : Array α) (x d : α) {i : Nat} (h : i < xs.size) :
    (xs.push x).getD i d = xs.getD i d := by
  rw [Array.getD_eq_getD_getElem?, Array.getD_eq_getD_getElem?, Array.getElem?_push,
    if_neg (Nat.ne_of_lt h)]

theorem getD_push_size {α : Type} (xs : Array α) (x d : α) : (xs.push x).getD xs.size d = x := by
  rw [Array.getD_eq_getD_getElem?, Array.getElem?_push, if_pos rfl]
  rfl

theorem extends_newList (s : Store) (xs : Array Value) : s.Extends (s.newList xs).2 := by
  refine ⟨fun id h => ⟨?_, getD_push_lt _ _ _ h⟩, fun id h => ⟨h, rfl⟩⟩
  show id < (s.lists.push xs).size
  rw [Array.size_push]
  exact Nat.lt_succ_of_lt h

theorem extends_newMap (s : Store) (m : OrderedMap Key Entry) : s.Extends (s.newMap m).2 := by
  refine ⟨fun id h => ⟨h, rfl⟩, fun id h => ⟨?_, getD_push_lt _ _ _ h⟩⟩
  show id < (s.maps.push m).size
  rw [Array.size_push]
  exact Nat.lt_succ_of_lt h

/-! ## Copies -/

/-- A value of one store is a copy of data of another one: constants are the same, lists have
copies of the same items, and maps have the same keys in the same order, each with a copy of the
key it shows and a copy of its value. -/
def Copies (s s' : Store) : Nat → Value → Value → Prop
  | 0, _, _ => False
  | depth + 1, v, w =>
    match v with
    | .nil => w = .nil
    | .bool b => w = .bool b
    | .num x => w = .num x
    | .text t => w = .text t
    | .list id => ∃ id', w = .list id' ∧ id' < s'.lists.size ∧
        List.Forall₂ (Copies s s' depth) (s.items id).toList (s'.items id').toList
    | .map id => ∃ id', w = .map id' ∧ id' < s'.maps.size ∧ List.Forall₂ (fun e e' => e'.1 = e.1 ∧
        Copies s s' depth e.2.key e'.2.key ∧ Copies s s' depth e.2.value e'.2.value)
        (s.content id).entries (s'.content id').entries
    | .function _ => False
    | .native _ => False

/-- An entry of a map is a copy of another one. -/
def EntryCopies (s s' : Store) (depth : Nat) (e e' : Key × Entry) : Prop :=
  e'.1 = e.1 ∧ s.Copies s' depth e.2.key e'.2.key ∧ s.Copies s' depth e.2.value e'.2.value

/-- A copy stays one when the store grows. -/
theorem Copies.extend {s s' s'' : Store} (hs : s'.Extends s'') {depth : Nat} :
    ∀ {v w : Value}, s.Copies s' depth v w → s.Copies s'' depth v w := by
  induction depth with
  | zero => exact fun h => h.elim
  | succ depth ih =>
    intro v w h
    cases v with
    | list id =>
      obtain ⟨id', rfl, inside, items⟩ := h
      obtain ⟨inside', same⟩ := hs.lists id' inside
      refine ⟨id', rfl, inside', ?_⟩
      rw [same]
      exact items.imp fun _ _ => ih
    | map id =>
      obtain ⟨id', rfl, inside, entries⟩ := h
      obtain ⟨inside', same⟩ := hs.maps id' inside
      refine ⟨id', rfl, inside', ?_⟩
      rw [same]
      exact entries.imp fun _ _ he => ⟨he.1, ih he.2.1, ih he.2.2⟩
    | nil | bool | num | text => exact h
    | function | native => exact h.elim

theorem EntryCopies.extend {s s' s'' : Store} (hs : s'.Extends s'') {depth : Nat}
    {e e' : Key × Entry} (h : s.EntryCopies s' depth e e') : s.EntryCopies s'' depth e e' :=
  ⟨h.1, h.2.1.extend hs, h.2.2.extend hs⟩

theorem mapM_eq_of_forall₂ {α β γ : Type} {f : α → Option γ} {g : β → Option γ} {xs : List α}
    {ys : List β} (h : List.Forall₂ (fun x y => g y = f x) xs ys) : ys.mapM g = xs.mapM f := by
  induction h with
  | nil => rfl
  | cons first _ ih => rw [List.mapM_cons, List.mapM_cons, first, ih]

/-- A copy has the same key. -/
theorem key?_of_copies {s s' : Store} {depth : Nat} : ∀ {v w : Value}, s.Copies s' depth v w →
    ∀ d, s'.key? d w = s.key? d v := by
  induction depth with
  | zero => exact fun h => h.elim
  | succ depth ih =>
    intro v w h d
    cases d with
    | zero => rfl
    | succ d =>
      cases v with
      | list id =>
        obtain ⟨id', rfl, -, items⟩ := h
        have keys := mapM_eq_of_forall₂ (items.imp fun _ _ hw => ih hw d)
        rw [key?_list, key?_list]
        exact congrArg (Option.map Key.list) keys
      | map id =>
        obtain ⟨id', rfl, -, entries⟩ := h
        have pairs : s'.keyPairs? d (s'.content id') = s.keyPairs? d (s.content id) := by
          refine mapM_eq_of_forall₂ (entries.imp fun e e' he => ?_)
          rw [keyPair?, keyPair?, he.1, ih he.2.2 d]
        rw [key?_map, key?_map, pairs]
      | nil | bool | num | text =>
        cases h
        rfl
      | function | native => exact h.elim

/-! ## Levels of keys

The key of a key is computed with half the levels that are left. Reading takes twelve levels for
each level of nesting, so half is still enough. -/

/-- Data whose text is read in twelve times a number of levels have no more than these levels. -/
theorem shallow_of_data {s : Store} {levels : Nat} : ∀ {v : Value} {d : Nat}, s.Data levels v →
    s.readingLevels levels v ≤ 12 * d → s.Shallow d v := by
  induction levels with
  | zero => exact fun h => h.elim
  | succ levels ih =>
    intro v d h enough
    have least := s.twelve_le_readingLevels levels v
    obtain ⟨d, rfl⟩ : ∃ n, d = n + 1 := ⟨d - 1, by omega⟩
    intro w hw
    cases v with
    | list id =>
      have below : s.readingLevels levels w + 12 ≤ _ := readingLevels_item levels hw
      exact ih (h.2 w hw) (by omega)
    | map id =>
      obtain ⟨entry, hentry, rfl⟩ := List.mem_map.mp hw
      obtain ⟨e, he, rfl⟩ := List.mem_map.mp hentry
      obtain ⟨-, below⟩ := readingLevels_entry levels he
      exact ih (h.2 e he).2.1 (by omega)
    | nil | bool | num | text => exact absurd hw List.not_mem_nil
    | function | native => exact h.elim

theorem mapM_mono {α β : Type} {f g : α → Option β} (h : ∀ x y, f x = some y → g x = some y)
    {xs : List α} {ys : List β} (hf : xs.mapM f = some ys) : xs.mapM g = some ys := by
  rw [mapM_eq_some] at hf ⊢
  rw [← hf]
  refine List.map_congr_left fun x hx => ?_
  have found : f x ∈ ys.map some := by
    rw [← hf]
    exact List.mem_map_of_mem hx
  obtain ⟨y, -, hy⟩ := List.mem_map.mp found
  rw [← hy, h x y hy.symm]

/-- More levels do not change a key. -/
theorem key?_mono {s : Store} {d : Nat} : ∀ {d' : Nat} {v : Value} {k : Key}, d ≤ d' →
    s.key? d v = some k → s.key? d' v = some k := by
  induction d with
  | zero => exact fun _ h => (by cases h)
  | succ d ih =>
    intro d' v k hd h
    obtain ⟨d', rfl⟩ : ∃ n, d' = n + 1 := ⟨d' - 1, by omega⟩
    have below : d ≤ d' := by omega
    cases v with
    | list id =>
      rw [key?_list] at h ⊢
      obtain ⟨ks, keys, rfl⟩ := Option.map_eq_some_iff.mp h
      rw [mapM_mono (fun x y hxy => ih below hxy) keys]
      rfl
    | map id =>
      rw [key?_map] at h ⊢
      obtain ⟨ps, pairs, rfl⟩ := Option.map_eq_some_iff.mp h
      have more : ∀ e p, s.keyPair? d e = some p → s.keyPair? d' e = some p := by
        intro e p hp
        obtain ⟨l, hl, rfl⟩ := Option.map_eq_some_iff.mp hp
        rw [keyPair?, ih below hl]
        rfl
      rw [keyPairs?, mapM_mono more pairs]
      rfl
    | nil | bool | num | text | function | native => exact h

/-- Data have the same key at every number of levels that is enough. -/
theorem key?_of_data {s : Store} {levels d : Nat} {v : Value} {k : Key} (h : s.Data levels v)
    (hk : s.key? levels v = some k) (enough : s.readingLevels levels v ≤ 12 * d) :
    s.key? d v = some k := by
  -- both numbers of levels give the key that the larger one gives
  obtain ⟨l, hl⟩ := exists_key_of_shallow (shallow_of_data h enough)
  have one := key?_mono (Nat.le_max_left levels d) hk
  have two := key?_mono (Nat.le_max_right levels d) hl
  rw [hl, ← two, one]

end Store

/-! ## Evaluation -/

/-- A state with more lists and maps, and otherwise the same. -/
def Machine.Grows (m m' : Machine) : Prop :=
  m.store.Extends m'.store ∧
    ∃ lists maps, m' = { m with store := { m.store with lists := lists, maps := maps } }

theorem Machine.Grows.refl (m : Machine) : m.Grows m :=
  ⟨.refl _, m.store.lists, m.store.maps, rfl⟩

theorem Machine.Grows.trans {m m' m'' : Machine} (h : m.Grows m') (h' : m'.Grows m'') :
    m.Grows m'' := by
  obtain ⟨extends₁, lists₁, maps₁, rfl⟩ := h
  obtain ⟨extends₂, lists₂, maps₂, rfl⟩ := h'
  exact ⟨extends₁.trans extends₂, lists₂, maps₂, rfl⟩

theorem Machine.Grows.scope {m m' : Machine} (h : m.Grows m') : m'.scope = m.scope := by
  obtain ⟨-, lists, maps, rfl⟩ := h
  rfl

theorem Machine.Grows.scopes {m m' : Machine} (h : m.Grows m') : m'.store.scopes = m.store.scopes := by
  obtain ⟨-, lists, maps, rfl⟩ := h
  rfl

/-- The entries of a map with a new key. -/
theorem OrderedMap.entries_insert {κ ν : Type} [BEq κ] [LawfulBEq κ] {m : OrderedMap κ ν} {k : κ}
    (v : ν) (h : k ∉ m.keys) : (m.insert k v).entries = m.entries ++ [(k, v)] := by
  have missing : m.contains k = false := Bool.eq_false_iff.mpr fun found => h (contains_iff.mp found)
  unfold entries
  rw [latest_insert, missing, if_neg Bool.false_ne_true, List.reverse_cons]

namespace EvalM

/-- A way to evaluate expressions builds a copy of a value from an expression. -/
def Rebuilds (s : Store) (levels : Nat) (value : Expr → EvalM Value) (v : Value) (e : Expr) : Prop :=
  ∀ m, ∃ w m', value e m = .ok w m' ∧ s.Copies m'.store levels v w ∧ m.Grows m'

/-- Expressions are evaluated into copies of the values they denote. -/
theorem values_copies {s : Store} {levels : Nat} {value : Expr → EvalM Value} {vs : List Value}
    {es : List Expr} (h : List.Forall₂ (Rebuilds s levels value) vs es) :
    ∀ m, ∃ ws m', values value es m = .ok ws m' ∧
      List.Forall₂ (s.Copies m'.store levels) vs ws ∧ m.Grows m' := by
  induction h with
  | nil => exact fun m => ⟨[], m, rfl, .nil, .refl m⟩
  | cons first _ ih =>
    intro m
    obtain ⟨w, m₁, run₁, copy, grows₁⟩ := first m
    obtain ⟨ws, m₂, run₂, copies, grows₂⟩ := ih m₁
    -- the first copy was made before the others, and is still there when they are
    refine ⟨w :: ws, m₂, ?_, .cons (copy.extend grows₂.1) copies, grows₁.trans grows₂⟩
    rw [values]
    exact (bind_ok run₁).trans (bind_ok run₂)

theorem keyOf_eq {depth : Nat} {w : Value} {m : Machine} {k : Key}
    (h : m.store.key? (depth / 2 + 1) w = some k) : keyOf depth w m = .ok k m := by
  show orTooDeep (m.store.key? (depth / 2 + 1) w) m = _
  rw [h]
  rfl

theorem keys_of_copies {s s' : Store} {levels : Nat} {xs ys : List (Key × Entry)}
    (h : List.Forall₂ (s.EntryCopies s' levels) xs ys) : ys.map Prod.fst = xs.map Prod.fst := by
  induction h with
  | nil => rfl
  | cons first _ ih => rw [List.map_cons, List.map_cons, first.1, ih]

/-- The entries of a map are evaluated into copies, each behind those before it: no key is among
the keys of those before. -/
theorem entries_copies {s : Store} {levels depth : Nat} {value : Expr → EvalM Value}
    {xs : List (Key × Entry)} {ps : List (Expr × Expr)}
    (h : List.Forall₂ (fun e p => Rebuilds s levels value e.2.key p.1 ∧
      Rebuilds s levels value e.2.value p.2 ∧ s.key? (depth / 2 + 1) e.2.key = some e.1) xs ps) :
    ∀ (done : List (Key × Entry)) (content : OrderedMap Key Entry) (m : Machine),
      List.Forall₂ (s.EntryCopies m.store levels) done content.entries →
      ((done ++ xs).map Prod.fst).Nodup →
      ∃ content' m', entries depth value content ps m = .ok content' m' ∧
        List.Forall₂ (s.EntryCopies m'.store levels) (done ++ xs) content'.entries ∧ m.Grows m' := by
  -- `done` are the entries whose copies are already in the new map; the induction moves entries
  -- from `xs` to its end
  induction h with
  | nil =>
    intro done content m copies _
    rw [List.append_nil]
    exact ⟨content, m, rfl, copies, .refl m⟩
  | @cons e p xs ps first _ ih =>
    intro done content m copies nodup
    obtain ⟨rebuildKey, rebuildValue, hkey⟩ := first
    obtain ⟨wk, m₁, run₁, key, grows₁⟩ := rebuildKey m
    obtain ⟨wv, m₂, run₂, item, grows₂⟩ := rebuildValue m₁
    have grows := grows₁.trans grows₂
    have key' := key.extend grows₂.1
    -- the key is computed from the copy, and is the one the entry was kept under
    have found : keyOf depth wk m₂ = .ok e.1 m₂ :=
      keyOf_eq ((Store.key?_of_copies key' _).trans hkey)
    -- so it is inserted behind all others, and does not replace any
    have fresh : e.1 ∉ content.keys := by
      rw [OrderedMap.keys, keys_of_copies copies]
      rw [List.map_append, List.map_cons] at nodup
      exact fun hmem => (List.disjoint_of_nodup_append nodup) hmem List.mem_cons_self
    have copies' : List.Forall₂ (s.EntryCopies m₂.store levels) (done ++ [e])
        (content.insert e.1 ⟨wk, wv⟩).entries := by
      rw [OrderedMap.entries_insert _ fresh]
      refine List.rel_append (copies.imp fun _ _ he => he.extend grows.1) (.cons ?_ .nil)
      exact ⟨rfl, key', item⟩
    have shape : done ++ e :: xs = (done ++ [e]) ++ xs := by
      rw [List.append_assoc, List.singleton_append]
    rw [shape] at nodup ⊢
    obtain ⟨content', m₃, run₃, all, grows₃⟩ := ih (done ++ [e]) _ m₂ copies' nodup
    refine ⟨content', m₃, ?_, all, grows.trans grows₃⟩
    rw [entries]
    exact (bind_ok run₁).trans ((bind_ok run₂).trans ((bind_ok found).trans run₃))

/-- A new list holds the items it was made of. -/
theorem newList_copies {s : Store} {levels : Nat} {id : ListId} {ws : List Value} {m : Machine}
    (h : List.Forall₂ (s.Copies m.store levels) (s.items id).toList ws) :
    ∃ w m', newList ws.toArray m = .ok w m' ∧
      s.Copies m'.store (levels + 1) (.list id) w ∧ m.Grows m' := by
  have larger := m.store.extends_newList ws.toArray
  refine ⟨.list m.store.lists.size, { m with store := (m.store.newList ws.toArray).2 }, rfl,
    ⟨m.store.lists.size, rfl, ?_, ?_⟩, larger, _, _, rfl⟩
  · show m.store.lists.size < (m.store.lists.push ws.toArray).size
    rw [Array.size_push]
    exact Nat.lt_succ_self _
  · have items : (m.store.newList ws.toArray).2.items m.store.lists.size = ws.toArray :=
      Store.getD_push_size _ _ _
    show List.Forall₂ _ _ ((m.store.newList ws.toArray).2.items m.store.lists.size).toList
    rw [items]
    exact h.imp fun _ _ hw => hw.extend larger

theorem newMap_copies {s : Store} {levels : Nat} {id : MapId} {content : OrderedMap Key Entry}
    {m : Machine}
    (h : List.Forall₂ (s.EntryCopies m.store levels) (s.content id).entries content.entries) :
    ∃ id' m', onStore (fun s => s.newMap content) m = .ok id' m' ∧
      s.Copies m'.store (levels + 1) (.map id) (.map id') ∧ m.Grows m' := by
  have larger := m.store.extends_newMap content
  refine ⟨m.store.maps.size, { m with store := (m.store.newMap content).2 }, rfl,
    ⟨m.store.maps.size, rfl, ?_, ?_⟩, larger, _, _, rfl⟩
  · show m.store.maps.size < (m.store.maps.push content).size
    rw [Array.size_push]
    exact Nat.lt_succ_self _
  · have entries : (m.store.newMap content).2.content m.store.maps.size = content :=
      Store.getD_push_size _ _ _
    show List.Forall₂ _ _ ((m.store.newMap content).2.content m.store.maps.size).entries
    rw [entries]
    exact h.imp fun _ _ he => he.extend larger

end EvalM

open EvalM Store

theorem forall₂_imp_mem {α β : Type} {R S : α → β → Prop} {xs : List α} {ys : List β}
    (h : List.Forall₂ R xs ys) (himp : ∀ x ∈ xs, ∀ y, R x y → S x y) : List.Forall₂ S xs ys := by
  induction h with
  | nil => exact .nil
  | cons first _ ih =>
    exact .cons (himp _ List.mem_cons_self _ first)
      (ih fun x hx => himp x (List.mem_cons_of_mem _ hx))

/-- An expression that denotes data is evaluated into a copy of the data. -/
theorem evaluate_data {setup : Setup} {s : Store} {levels : Nat} : ∀ {v : Value} {e : Expr}
    {depth : Nat}, s.Data levels v → s.Denotes levels v e → s.readingLevels levels v ≤ depth →
      Rebuilds s levels (evaluate setup depth) v e := by
  induction levels with
  | zero => exact fun h => h.elim
  | succ levels ih =>
    intro v e depth h denoted enough m
    have least := s.twelve_le_readingLevels levels v
    obtain ⟨depth, rfl⟩ : ∃ d, depth = d + 2 := ⟨depth - 2, by omega⟩
    cases v with
    | nil =>
      cases denoted
      exact ⟨_, m, rfl, rfl, .refl m⟩
    | bool b =>
      cases denoted
      exact ⟨_, m, rfl, rfl, .refl m⟩
    | num x =>
      -- a minus is evaluated like the operator it is, which takes the second of the two levels
      rcases denoted with rfl | ⟨place, y, rfl, rfl⟩
      · exact ⟨_, m, rfl, rfl, .refl m⟩
      · exact ⟨_, m, rfl, rfl, .refl m⟩
    | text t =>
      cases denoted
      exact ⟨_, m, rfl, rfl, .refl m⟩
    | list id =>
      obtain ⟨es, rfl, items⟩ := denoted
      have rebuilds : List.Forall₂ (Rebuilds s levels (evaluate setup (depth + 1)))
          (s.items id).toList es := by
        refine forall₂_imp_mem items fun w hw e he => ih (h.2 w hw) he ?_
        have below := readingLevels_item levels hw
        omega
      obtain ⟨ws, m₁, run₁, copies, grows₁⟩ := values_copies rebuilds m
      obtain ⟨w, m₂, run₂, copy, grows₂⟩ := newList_copies copies
      refine ⟨w, m₂, ?_, copy, grows₁.trans grows₂⟩
      rw [evaluate]
      exact (bind_ok run₁).trans run₂
    | map id =>
      obtain ⟨ps, rfl, entries⟩ := denoted
      have rebuilds : List.Forall₂ (fun e p =>
          Rebuilds s levels (evaluate setup (depth + 1)) e.2.key p.1 ∧
          Rebuilds s levels (evaluate setup (depth + 1)) e.2.value p.2 ∧
          s.key? ((depth + 1) / 2 + 1) e.2.key = some e.1) (s.content id).entries ps := by
        refine forall₂_imp_mem entries fun e he p hp => ?_
        obtain ⟨belowKey, belowValue⟩ := readingLevels_entry levels he
        obtain ⟨key, value, kept⟩ := h.2 e he
        -- a key may take as many levels as half of those that are left, and one
        exact ⟨ih key hp.1 (by omega), ih value hp.2 (by omega), key?_of_data key kept (by omega)⟩
      obtain ⟨content, m₁, run₁, copies, grows₁⟩ := entries_copies rebuilds [] .empty m .nil
        (s.content id).nodup_keys
      obtain ⟨id', m₂, run₂, copy, grows₂⟩ := newMap_copies copies
      refine ⟨.map id', m₂, ?_, copy, grows₁.trans grows₂⟩
      rw [evaluate]
      exact (bind_ok run₁).trans (bind_ok run₂)
    | function id => exact h.elim
    | native f => exact h.elim

end ContractScript
