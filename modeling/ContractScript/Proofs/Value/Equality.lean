/-
Keys and equality agree.

Two values have the same key exactly if they are equal. Both notions walk through
lists and maps, one by building a key and one by comparing item by item. A key
lists the entries of a map in a fixed order, equality looks each entry of one map
up in the other; the two meet in the statement that the pairs of key and value key
are the same up to order.

Neither notion looks at the keys as a map shows them. A list that was changed after
it became a key is shown changed, but it is still found under what it was.

A value that contains itself has no key and may have no answer to a comparison, and
a number that differs from itself has a key but is not equal to itself. The values
without either are plain. For plain values both walks end, after at most as many
levels as there are lists and maps.
-/
import ContractScript.Proofs.Value.KeyOrder
import ContractScript.Value
import Mathlib.Data.Finset.Sum
import Mathlib.Data.List.Perm.Subperm
import Mathlib.Logic.Relation

set_option autoImplicit false

namespace ContractScript

/-! ## Numbers -/

namespace Number

/-- Numbers other than NaN are the same exactly if their canonical bits are. -/
theorem same_eq_canonicalBits {x y : Float} (hx : isNaN x = false) (hy : isNaN y = false) :
    same x y = (canonicalBits x == canonicalBits y) := by
  have zeroBits : ∀ z : Float, z.toBits = 0 → isZero z = true := by
    intro z hz
    unfold isZero exponentField fractionField
    rw [hz]
    rfl
  have sameZero : x.toBits = y.toBits → isZero x = isZero y := by
    intro h
    unfold isZero exponentField fractionField
    rw [h]
  -- the two zeros are the only numbers that are the same with different bits
  unfold same canonicalBits
  rw [hx, hy, Bool.eq_iff_iff]
  simp only [Bool.not_false, Bool.true_and, Bool.or_eq_true, Bool.and_eq_true, beq_iff_eq]
  by_cases zx : isZero x = true
  · by_cases zy : isZero y = true
    · simp [zx, zy]
    · rw [if_pos zx, if_neg zy]
      constructor
      · rintro (h | h)
        · exact absurd ((sameZero h).symm.trans zx) zy
        · exact absurd h.2 zy
      · intro h
        exact absurd (zeroBits y h.symm) zy
  · rw [if_neg zx]
    by_cases zy : isZero y = true
    · rw [if_pos zy]
      constructor
      · rintro (h | h)
        · exact absurd ((sameZero h).trans zy) zx
        · exact absurd h.1 zx
      · intro h
        exact absurd (zeroBits x h) zx
    · rw [if_neg zy]
      constructor
      · rintro (h | h)
        · exact h
        · exact absurd h.1 zx
      · exact .inl

end Number

namespace Store

/-! ## Plain values -/

/-- What a list or map holds, as far as keys and equality look. -/
def children (s : Store) : Value → List Value
  | .list id => (s.items id).toList
  | .map id => (s.content id).values.map Entry.value
  | _ => []

/-- A value directly holds another. -/
def Holds (s : Store) (outer inner : Value) : Prop := inner ∈ s.children outer

/-- Neither a container that contains itself nor a NaN is anywhere inside, and no map was given a
key with a NaN. -/
structure Plain (s : Store) (v : Value) : Prop where
  acyclic : ∀ w, Relation.ReflTransGen s.Holds v w → ¬Relation.TransGen s.Holds w w
  noNaN : ∀ x, Relation.ReflTransGen s.Holds v (.num x) → Number.isNaN x = false
  keysNoNaN : ∀ id, Relation.ReflTransGen s.Holds v (.map id) →
    ∀ k ∈ (s.content id).keys, k.hasNaN = false

variable {s : Store}

theorem Plain.child {v w : Value} (h : s.Plain v) (hw : w ∈ s.children v) : s.Plain w :=
  ⟨fun u hu => h.acyclic u (.head hw hu), fun x hx => h.noNaN x (.head hw hx),
    fun id hid => h.keysNoNaN id (.head hw hid)⟩

/-- Values that are built from plain ones are plain. -/
theorem Plain.ofChildren {v : Value} (h : ∀ w ∈ s.children v, s.Plain w)
    (hv : ∀ x, v = .num x → Number.isNaN x = false)
    (hk : ∀ id, v = .map id → ∀ k ∈ (s.content id).keys, k.hasNaN = false) : s.Plain v := by
  refine ⟨?_, ?_, ?_⟩
  · intro w hw cycle
    rcases hw.cases_head with rfl | ⟨u, hu, rest⟩
    · -- a cycle through `v` is a cycle through one of its children
      obtain ⟨u, hu, back⟩ := Relation.TransGen.head'_iff.mp cycle
      exact (h u hu).acyclic u .refl (Relation.TransGen.tail' back hu)
    · exact (h u hu).acyclic w rest cycle
  · intro x hx
    rcases hx.cases_head with rfl | ⟨u, hu, rest⟩
    · exact hv x rfl
    · exact (h u hu).noNaN x rest
  · intro id hid
    rcases hid.cases_head with rfl | ⟨u, hu, rest⟩
    · exact hk id rfl
    · exact (h u hu).keysNoNaN id rest

/-! ## Levels -/

/-- At most a number of levels are nested. -/
def Shallow (s : Store) : Nat → Value → Prop
  | 0, _ => False
  | depth + 1, v => ∀ w ∈ s.children v, s.Shallow depth w

/-- The reference of a list or map. -/
def reference? : Value → Option (ListId ⊕ MapId)
  | .list id => some (.inl id)
  | .map id => some (.inr id)
  | _ => none

theorem eq_of_reference? {v w : Value} {r : ListId ⊕ MapId} (hv : reference? v = some r)
    (hw : reference? w = some r) : v = w := by
  unfold reference? at hv hw
  split at hv <;> split at hw <;> cases hv <;> cases hw <;> rfl

/-- The references of all lists and maps of a store. -/
def references (s : Store) : Finset (ListId ⊕ MapId) :=
  (Finset.range s.lists.size).disjSum (Finset.range s.maps.size)

theorem card_references (s : Store) : s.references.card = s.lists.size + s.maps.size := by
  rw [references, Finset.card_disjSum, Finset.card_range, Finset.card_range]

/-- What holds something is a list or map of the store. -/
theorem exists_reference_of_child {v w : Value} (h : w ∈ s.children v) :
    ∃ r ∈ s.references, reference? v = some r := by
  unfold children at h
  split at h
  · rename_i id
    refine ⟨.inl id, Finset.inl_mem_disjSum.mpr (Finset.mem_range.mpr ?_), rfl⟩
    by_contra outside
    rw [items, Array.getD_eq_getD_getElem?, Array.getElem?_eq_none (Nat.le_of_not_lt outside)] at h
    exact absurd h List.not_mem_nil
  · rename_i id
    refine ⟨.inr id, Finset.inr_mem_disjSum.mpr (Finset.mem_range.mpr ?_), rfl⟩
    by_contra outside
    rw [content, Array.getD_eq_getD_getElem?, Array.getElem?_eq_none (Nat.le_of_not_lt outside)] at h
    exact absurd h List.not_mem_nil
  · exact absurd h List.not_mem_nil

/-- At most a number of levels are nested, where something is inside of values. -/
def Nests (inside : Value → List Value) : Nat → Value → Prop
  | 0, _ => False
  | depth + 1, v => ∀ w ∈ inside v, Nests inside depth w

theorem Nests.shallow {depth : Nat} : ∀ {v : Value}, Nests s.children depth v → s.Shallow depth v := by
  induction depth with
  | zero => exact fun h => h
  | succ depth ih => exact fun h w inside => ih (h w inside)

/-- On the way down to a value the containers passed are all different, so there are no more
levels below than containers not yet passed. -/
theorem nests_of_passed {inside : Value → List Value}
    (container : ∀ {v w : Value}, w ∈ inside v → ∃ r ∈ s.references, reference? v = some r)
    (depth : Nat) : ∀ (passed : Finset (ListId ⊕ MapId)) (v : Value),
    passed ⊆ s.references →
    (∀ r ∈ passed, ∀ w, reference? w = some r → Relation.TransGen (fun v w => w ∈ inside v) w v) →
    (∀ w, Relation.ReflTransGen (fun v w => w ∈ inside v) v w →
      ¬Relation.TransGen (fun v w => w ∈ inside v) w w) →
    s.references.card < depth + passed.card → Nests inside depth v := by
  induction depth with
  | zero =>
    intro passed v hsub _ _ hcard
    have := Finset.card_le_card hsub
    omega
  | succ depth ih =>
    intro passed v hsub habove hacyclic hcard w hw
    obtain ⟨r, hr, hv⟩ := container hw
    -- a container that was passed before would contain itself
    have fresh : r ∉ passed := fun hmem => hacyclic v .refl (habove r hmem v hv)
    refine ih (insert r passed) w ?_ ?_ ?_ ?_
    · exact Finset.insert_subset hr hsub
    · intro r' hr' u hu
      rcases Finset.mem_insert.mp hr' with rfl | hr'
      · rw [eq_of_reference? hu hv]
        exact .single hw
      · exact (habove r' hr' u hu).tail hw
    · exact fun u hu => hacyclic u (.head hw hu)
    · rw [Finset.card_insert_of_notMem fresh]
      omega

theorem shallow_of_passed (depth : Nat) (passed : Finset (ListId ⊕ MapId)) (v : Value)
    (hsub : passed ⊆ s.references)
    (habove : ∀ r ∈ passed, ∀ w, reference? w = some r → Relation.TransGen s.Holds w v)
    (hacyclic : ∀ w, Relation.ReflTransGen s.Holds v w → ¬Relation.TransGen s.Holds w w)
    (hcard : s.references.card < depth + passed.card) : s.Shallow depth v :=
  (nests_of_passed exists_reference_of_child depth passed v hsub habove hacyclic hcard).shallow

theorem Plain.shallow {v : Value} (h : s.Plain v) {depth : Nat}
    (enough : s.lists.size + s.maps.size < depth) : s.Shallow depth v := by
  refine shallow_of_passed depth ∅ v (Finset.empty_subset _) ?_ h.acyclic ?_
  · exact fun r hr => absurd hr (Finset.notMem_empty r)
  · rw [card_references, Finset.card_empty]
    exact enough

/-! ## Keys -/

/-- A step on every item of a list succeeds exactly if it does on each of them. -/
theorem mapM_eq_some {α β : Type} {f : α → Option β} {xs : List α} {ys : List β} :
    xs.mapM f = some ys ↔ xs.map f = ys.map some := by
  induction xs generalizing ys with
  | nil => cases ys <;> simp
  | cons x xs ih =>
    rw [List.mapM_cons]
    cases hx : f x with
    | none => cases ys <;> simp [hx]
    | some y =>
      cases hrest : xs.mapM f with
      | none =>
        cases ys with
        | nil => simp [hx]
        | cons z zs =>
          have none' : ¬xs.map f = zs.map some := fun h => by
            rw [← ih, hrest] at h
            cases h
          simp [hx, none']
      | some ys' =>
        cases ys with
        | nil => simp [hx]
        | cons z zs =>
          have tail : ys' = zs ↔ xs.map f = zs.map some := by
            rw [← ih, hrest, Option.some.injEq]
          simp [hx, tail]

theorem exists_mapM {α β : Type} {f : α → Option β} {xs : List α}
    (h : ∀ x ∈ xs, ∃ y, f x = some y) : ∃ ys, xs.mapM f = some ys := by
  induction xs with
  | nil => exact ⟨[], rfl⟩
  | cons x xs ih =>
    obtain ⟨y, hy⟩ := h x List.mem_cons_self
    obtain ⟨ys, hys⟩ := ih fun x' hx' => h x' (List.mem_cons_of_mem _ hx')
    refine ⟨y :: ys, mapM_eq_some.mpr ?_⟩
    rw [List.map_cons, List.map_cons, hy, mapM_eq_some.mp hys]

/-- The key of an entry with the key of its value. -/
def keyPair? (s : Store) (depth : Nat) (e : Key × Entry) : Option (Key × Key) :=
  (s.key? depth e.2.value).map fun k => (e.1, k)

/-- The keys of a map with the keys of its values. -/
def keyPairs? (s : Store) (depth : Nat) (m : OrderedMap Key Entry) : Option (List (Key × Key)) :=
  m.entries.mapM (s.keyPair? depth)

theorem key?_list (s : Store) (depth : Nat) (id : ListId) :
    s.key? (depth + 1) (.list id) = ((s.children (.list id)).mapM (s.key? depth)).map .list := by
  rw [key?]
  rfl

theorem key?_map (s : Store) (depth : Nat) (id : MapId) :
    s.key? (depth + 1) (.map id) = (s.keyPairs? depth (s.content id)).map .ofPairs := by
  rw [key?]
  rfl

theorem mem_children_of_entry {id : MapId} {e : Key × Entry} (h : e ∈ (s.content id).entries) :
    e.2.value ∈ s.children (.map id) :=
  List.mem_map.mpr ⟨e.2, List.mem_map.mpr ⟨e, h, rfl⟩, rfl⟩

/-- Every value has a key if there are enough levels. -/
theorem exists_key_of_shallow {depth : Nat} : ∀ {v : Value}, s.Shallow depth v →
    ∃ k, s.key? depth v = some k := by
  induction depth with
  | zero => exact fun h => h.elim
  | succ depth ih =>
    intro v h
    cases v with
    | list id =>
      obtain ⟨ks, hks⟩ := exists_mapM (f := s.key? depth) fun v hv => ih (h v hv)
      exact ⟨.list ks, by rw [key?_list, hks]; rfl⟩
    | map id =>
      have each : ∀ e ∈ (s.content id).entries, ∃ p, s.keyPair? depth e = some p := by
        intro e he
        obtain ⟨k, hk⟩ := ih (h _ (mem_children_of_entry he))
        exact ⟨(e.1, k), by rw [keyPair?, hk]; rfl⟩
      obtain ⟨ps, hps⟩ := exists_mapM each
      exact ⟨.ofPairs ps, by rw [key?_map, keyPairs?, hps]; rfl⟩
    | nil | bool | num | text | function | native => exact ⟨_, rfl⟩

section KeyPairs

variable {depth : Nat} {m : OrderedMap Key Entry} {ps : List (Key × Key)}

theorem mem_keyPairs (h : s.keyPairs? depth m = some ps) {k l : Key} :
    (k, l) ∈ ps ↔ ∃ e, (k, e) ∈ m.entries ∧ s.key? depth e.value = some l := by
  have each : (k, l) ∈ ps ↔ some (k, l) ∈ ps.map some := by
    rw [List.mem_map]
    constructor
    · exact fun hp => ⟨_, hp, rfl⟩
    · rintro ⟨p, hp, ⟨⟩⟩
      exact hp
  rw [each, ← mapM_eq_some.mp h, List.mem_map]
  constructor
  · rintro ⟨e, he, hp⟩
    obtain ⟨l', hl', ⟨⟩⟩ := Option.map_eq_some_iff.mp hp
    exact ⟨e.2, he, hl'⟩
  · rintro ⟨e, he, hl⟩
    exact ⟨(k, e), he, by rw [keyPair?, hl]; rfl⟩

theorem map_fst_keyPairs (h : s.keyPairs? depth m = some ps) : ps.map Prod.fst = m.keys := by
  have pairs := mapM_eq_some.mp h
  have firsts : (ps.map some).map (Option.map Prod.fst) = (ps.map Prod.fst).map some := by
    rw [List.map_map, List.map_map]
    rfl
  apply List.map_injective_iff.mpr (Option.some_injective Key)
  rw [← firsts, ← pairs, OrderedMap.keys, List.map_map, List.map_map]
  apply List.map_congr_left
  intro e he
  -- a pair is made from every entry, since the whole list came out
  have made : s.keyPair? depth e ∈ ps.map some := by
    rw [← pairs]
    exact List.mem_map_of_mem he
  obtain ⟨p, -, hp⟩ := List.mem_map.mp made
  obtain ⟨l, -, rfl⟩ := Option.map_eq_some_iff.mp hp.symm
  rw [Function.comp_apply, ← hp]
  rfl

theorem nodup_map_fst_keyPairs (h : s.keyPairs? depth m = some ps) :
    (ps.map Prod.fst).Nodup := by
  rw [map_fst_keyPairs h]
  exact m.nodup_keys

theorem length_keyPairs (h : s.keyPairs? depth m = some ps) : ps.length = m.size := by
  rw [← List.length_map Prod.fst, map_fst_keyPairs h, OrderedMap.length_keys]

end KeyPairs

/-! ## Comparing maps -/

theorem sameKeys_iff {xs ys : OrderedMap Key Entry} :
    sameKeys xs ys = true ↔ xs.size = ys.size ∧ ∀ k ∈ xs.keys, k ∈ ys.keys := by
  unfold sameKeys
  rw [Bool.and_eq_true, beq_iff_eq, List.all_eq_true]
  simp only [OrderedMap.contains_iff]

/-- The values under one key in two maps stand side by side. -/
theorem mem_valuePairs {xs ys : OrderedMap Key Entry} {v w : Value} :
    (v, w) ∈ valuePairs xs ys ↔
      ∃ k x y, (k, x) ∈ xs.entries ∧ (k, y) ∈ ys.entries ∧ x.value = v ∧ y.value = w := by
  unfold valuePairs
  rw [List.mem_filterMap]
  constructor
  · rintro ⟨e, he, hp⟩
    obtain ⟨y, hy, ⟨⟩⟩ := Option.map_eq_some_iff.mp hp
    exact ⟨e.1, e.2, y, he, OrderedMap.get?_eq_some.mp hy, rfl, rfl⟩
  · rintro ⟨k, x, y, hx, hy, rfl, rfl⟩
    exact ⟨(k, x), hx, by rw [OrderedMap.get?_eq_some.mpr hy]; rfl⟩

/-- Two maps have the same pairs of key and value key exactly if they have the same keys, and the
values under each key have the same key. -/
theorem perm_keyPairs_iff {depth : Nat} {xs ys : OrderedMap Key Entry} {ps qs : List (Key × Key)}
    (hp : s.keyPairs? depth xs = some ps) (hq : s.keyPairs? depth ys = some qs) :
    ps.Perm qs ↔ sameKeys xs ys = true ∧
      ∀ p ∈ valuePairs xs ys, s.key? depth p.1 = s.key? depth p.2 := by
  rw [sameKeys_iff]
  constructor
  · intro perm
    have keys : xs.keys.Perm ys.keys := by
      rw [← map_fst_keyPairs hp, ← map_fst_keyPairs hq]
      exact perm.map Prod.fst
    refine ⟨⟨?_, fun k => keys.mem_iff.mp⟩, ?_⟩
    · rw [← length_keyPairs hp, ← length_keyPairs hq]
      exact perm.length_eq
    · rintro ⟨v, w⟩ hvw
      obtain ⟨k, x, y, hx, hy, rfl, rfl⟩ := mem_valuePairs.mp hvw
      have hk : k ∈ ps.map Prod.fst := by
        rw [map_fst_keyPairs hp]
        exact List.mem_map.mpr ⟨_, hx, rfl⟩
      obtain ⟨⟨k, l⟩, hl, rfl⟩ := List.mem_map.mp hk
      -- the pair under `k` is in both lists, and each map has one entry under `k`
      obtain ⟨x', hx', hxl⟩ := (mem_keyPairs hp).mp hl
      obtain ⟨y', hy', hyl⟩ := (mem_keyPairs hq).mp (perm.mem_iff.mp hl)
      have xx : x' = x := Option.some.inj
        ((OrderedMap.get?_eq_some.mpr hx').symm.trans (OrderedMap.get?_eq_some.mpr hx))
      have yy : y' = y := Option.some.inj
        ((OrderedMap.get?_eq_some.mpr hy').symm.trans (OrderedMap.get?_eq_some.mpr hy))
      rw [← xx, ← yy, hxl, hyl]
  · rintro ⟨⟨size, sub⟩, agree⟩
    have subset : ps ⊆ qs := by
      rintro ⟨k, l⟩ hkl
      obtain ⟨x, hx, hl⟩ := (mem_keyPairs hp).mp hkl
      obtain ⟨⟨k, y⟩, hy, rfl⟩ := List.mem_map.mp (sub k (List.mem_map.mpr ⟨_, hx, rfl⟩))
      refine (mem_keyPairs hq).mpr ⟨y, hy, ?_⟩
      rw [← agree _ (mem_valuePairs.mpr ⟨k, x, y, hx, hy, rfl, rfl⟩)]
      exact hl
    -- no pair comes twice and there are as many in both, so the inclusion is a permutation
    refine (List.subperm_of_subset (nodup_map_fst_keyPairs hp).of_map subset).perm_of_length_le ?_
    rw [length_keyPairs hp, length_keyPairs hq, size]

/-! ## Comparing values -/

/-- A test that answers for every pair answers for all of them together. -/
theorem allPairs?_eq {α : Type} {test : α → α → Option Bool} {g : α × α → Bool}
    {pairs : List (α × α)} (h : ∀ p ∈ pairs, test p.1 p.2 = some (g p)) :
    allPairs? test pairs = some (pairs.all g) := by
  induction pairs with
  | nil => rfl
  | cons p rest ih =>
    obtain ⟨a, b⟩ := p
    have first : test a b = some (g (a, b)) := h (a, b) List.mem_cons_self
    have others := ih fun p hp => h p (List.mem_cons_of_mem _ hp)
    rw [allPairs?, first, List.all_cons]
    cases g (a, b) with
    | true => exact others
    | false => rfl

theorem map_eq_map_iff_zip {α β : Type} {f : α → β} {xs ys : List α} :
    xs.map f = ys.map f ↔ xs.length = ys.length ∧ ∀ p ∈ xs.zip ys, f p.1 = f p.2 := by
  induction xs generalizing ys with
  | nil => cases ys <;> simp
  | cons x xs ih =>
    cases ys with
    | nil => simp
    | cons y ys => simp [ih, and_left_comm]

/-- The kind of key a value has. -/
def kind : Value → Nat
  | .nil => 0
  | .bool _ => 1
  | .num _ => 2
  | .text _ => 3
  | .list _ => 4
  | .map _ => 5
  | .function _ => 6
  | .native _ => 7

theorem rank_key {depth : Nat} {v : Value} {k : Key} (h : s.key? (depth + 1) v = some k) :
    k.rank = kind v := by
  cases v with
  | list id =>
    rw [key?_list] at h
    obtain ⟨ks, -, rfl⟩ := Option.map_eq_some_iff.mp h
    rfl
  | map id =>
    rw [key?_map] at h
    obtain ⟨ps, -, rfl⟩ := Option.map_eq_some_iff.mp h
    rfl
  | nil | bool | num | text | function | native =>
    cases h
    rfl

/-- Values of different kinds are not equal. -/
theorem equal?_of_kind_ne {depth : Nat} {a b : Value} (h : kind a ≠ kind b) :
    s.equal? (depth + 1) a b = some false := by
  cases a <;> cases b <;> first | rfl | exact absurd rfl h

/-- A value that can be compared in a number of levels. -/
structure Comparable (s : Store) (depth : Nat) (v : Value) : Prop where
  plain : s.Plain v
  shallow : s.Shallow depth v

theorem Comparable.child {depth : Nat} {v w : Value} (h : s.Comparable (depth + 1) v)
    (hw : w ∈ s.children v) : s.Comparable depth w :=
  ⟨h.plain.child hw, h.shallow w hw⟩

theorem Comparable.exists_key {depth : Nat} {v : Value} (h : s.Comparable depth v) :
    ∃ k, s.key? depth v = some k :=
  exists_key_of_shallow h.shallow

/-- Two lists of items have the same key exactly if they are as long as each other and the items at
each place have the same key. -/
theorem list_key_eq_iff {depth : Nat} {xs ys : List Value} {ks ls : List Key}
    (hk : xs.mapM (s.key? depth) = some ks) (hl : ys.mapM (s.key? depth) = some ls) :
    Key.list ks = Key.list ls ↔
      xs.length = ys.length ∧ ∀ p ∈ xs.zip ys, s.key? depth p.1 = s.key? depth p.2 := by
  rw [Key.list.injEq, ← map_eq_map_iff_zip, mapM_eq_some.mp hk, mapM_eq_some.mp hl]
  exact (List.map_injective_iff.mpr (Option.some_injective Key)).eq_iff.symm

/-- Two values answer whether they are equal, and they are if they have the same key. -/
def Agree (s : Store) (depth : Nat) (a b : Value) : Prop :=
  s.equal? depth a b = some (s.key? depth a == s.key? depth b)

theorem allPairs?_of_agree {depth : Nat} {pairs : List (Value × Value)}
    (h : ∀ p ∈ pairs, s.Agree depth p.1 p.2) :
    allPairs? (s.equal? depth) pairs =
      some (pairs.all fun p => s.key? depth p.1 == s.key? depth p.2) :=
  allPairs?_eq h

theorem agree_list {depth : Nat} {x y : ListId} {ks ls : List Key}
    (h : ∀ a ∈ s.children (.list x), ∀ b ∈ s.children (.list y), s.Agree depth a b)
    (hk : (s.children (.list x)).mapM (s.key? depth) = some ks)
    (hl : (s.children (.list y)).mapM (s.key? depth) = some ls) :
    s.equal? (depth + 1) (.list x) (.list y) = some (Key.list ks == Key.list ls) := by
  have sides : ∀ p ∈ (s.items x).toList.zip (s.items y).toList, s.Agree depth p.1 p.2 :=
    fun p hp => h _ (List.of_mem_zip hp).1 _ (List.of_mem_zip hp).2
  rw [equal?, allPairs?_of_agree sides, ← apply_ite some]
  apply congrArg some
  rw [Bool.eq_iff_iff, @beq_iff_eq Key, list_key_eq_iff hk hl]
  simp [children]

theorem agree_map {depth : Nat} {x y : MapId} {ps qs : List (Key × Key)}
    (h : ∀ a ∈ s.children (.map x), ∀ b ∈ s.children (.map y), s.Agree depth a b)
    (hp : s.keyPairs? depth (s.content x) = some ps)
    (hq : s.keyPairs? depth (s.content y) = some qs) :
    s.equal? (depth + 1) (.map x) (.map y) = some (Key.ofPairs ps == Key.ofPairs qs) := by
  have sides : ∀ p ∈ valuePairs (s.content x) (s.content y), s.Agree depth p.1 p.2 := by
    rintro ⟨v, w⟩ hvw
    obtain ⟨k, e, f, he, hf, rfl, rfl⟩ := mem_valuePairs.mp hvw
    exact h _ (mem_children_of_entry he) _ (mem_children_of_entry hf)
  rw [equal?, allPairs?_of_agree sides, ← apply_ite some]
  apply congrArg some
  rw [Bool.eq_iff_iff, @beq_iff_eq Key, Key.ofPairs_eq_ofPairs (nodup_map_fst_keyPairs hp),
    perm_keyPairs_iff hp hq]
  simp

/-- Equality answers for all values that can be compared, and what it answers is whether the values
have the same key. -/
theorem agree_of_comparable {depth : Nat} : ∀ {a b : Value}, s.Comparable depth a →
    s.Comparable depth b → s.Agree depth a b := by
  induction depth with
  | zero => exact fun ha => ha.shallow.elim
  | succ depth ih =>
    intro a b ha hb
    -- what is inside agrees, by induction on the levels
    have inside : ∀ v ∈ s.children a, ∀ w ∈ s.children b, s.Agree depth v w :=
      fun v hv w hw => ih (ha.child hv) (hb.child hw)
    obtain ⟨k, hk⟩ := ha.exists_key
    obtain ⟨l, hl⟩ := hb.exists_key
    unfold Agree
    by_cases kinds : kind a = kind b
    · -- values of one kind, in the order of the constructors
      cases a <;> cases b <;> cases kinds
      · rfl
      · rfl
      · rename_i x y
        have hx := ha.plain.noNaN x .refl
        have hy := hb.plain.noNaN y .refl
        exact congrArg some (Number.same_eq_canonicalBits hx hy)
      · rfl
      · rw [key?_list] at hk hl
        obtain ⟨ks, hks, rfl⟩ := Option.map_eq_some_iff.mp hk
        obtain ⟨ls, hls, rfl⟩ := Option.map_eq_some_iff.mp hl
        rw [agree_list inside hks hls, key?_list, key?_list, hks, hls]
        rfl
      · rw [key?_map] at hk hl
        obtain ⟨ps, hps, rfl⟩ := Option.map_eq_some_iff.mp hk
        obtain ⟨qs, hqs, rfl⟩ := Option.map_eq_some_iff.mp hl
        rw [agree_map inside hps hqs, key?_map, key?_map, hps, hqs]
        rfl
      · rfl
      · rfl
    · -- the kind of a value shows in its key
      have different : k ≠ l := fun same => kinds (by rw [← rank_key hk, ← rank_key hl, same])
      rw [equal?_of_kind_ne kinds, hk, hl, Option.some_beq_some, beq_false_of_ne different]

/-! ## Keys without NaN -/

theorem anyNaN_eq_false {ks : List Key} :
    Key.anyNaN ks = false ↔ ∀ k ∈ ks, k.hasNaN = false := by
  induction ks with
  | nil => simp [Key.anyNaN]
  | cons k ks ih => simp [Key.anyNaN, ih]

theorem anyPairNaN_eq_false {ps : List (Key × Key)} :
    Key.anyPairNaN ps = false ↔ ∀ p ∈ ps, p.1.hasNaN = false ∧ p.2.hasNaN = false := by
  induction ps with
  | nil => simp [Key.anyPairNaN]
  | cons p ps ih => simp [Key.anyPairNaN, ih]

theorem nanBits_canonicalBits {x : Float} (h : Number.isNaN x = false) :
    Number.nanBits (Number.canonicalBits x) = false := by
  unfold Number.canonicalBits
  split
  · rfl
  · exact h

/-- The key of a value without NaN has none. -/
theorem Plain.hasNaN_key {depth : Nat} : ∀ {v : Value} {k : Key}, s.Plain v →
    s.key? depth v = some k → k.hasNaN = false := by
  induction depth with
  | zero => exact fun _ h => (by cases h)
  | succ depth ih =>
    intro v k hv hk
    cases v with
    | list id =>
      rw [key?_list] at hk
      obtain ⟨ks, hks, rfl⟩ := Option.map_eq_some_iff.mp hk
      refine anyNaN_eq_false.mpr fun l hl => ?_
      have made : some l ∈ ks.map some := List.mem_map_of_mem hl
      rw [← mapM_eq_some.mp hks, List.mem_map] at made
      obtain ⟨w, hw, hl⟩ := made
      exact ih (hv.child hw) hl
    | map id =>
      rw [key?_map] at hk
      obtain ⟨ps, hps, rfl⟩ := Option.map_eq_some_iff.mp hk
      refine anyPairNaN_eq_false.mpr ?_
      -- sorting the pairs adds none
      rintro ⟨l, m⟩ hlm
      obtain ⟨e, he, hm⟩ := (mem_keyPairs hps).mp ((List.mergeSort_perm ps _).mem_iff.mp hlm)
      refine ⟨hv.keysNoNaN id .refl l (List.mem_map.mpr ⟨_, he, rfl⟩), ?_⟩
      exact ih (hv.child (mem_children_of_entry he)) hm
    | num x =>
      cases hk
      exact nanBits_canonicalBits (hv.noNaN x .refl)
    | nil | bool | text | function | native =>
      cases hk
      rfl

theorem sameKey?_eq {depth : Nat} {a b : Value} {k l : Key} (ha : s.Plain a)
    (hk : s.key? depth a = some k) (hl : s.key? depth b = some l) :
    s.sameKey? depth a b = some (k == l) := by
  unfold sameKey?
  rw [hk, hl]
  show some (k == l && !k.hasNaN) = some (k == l)
  rw [ha.hasNaN_key hk, Bool.not_false, Bool.and_true]

/-! ## Agreement -/

/-- Two values are the same key exactly if they are equal, so equality is an equivalence. This
concerns all values without NaN and without a container that contains itself: they can be
compared once there are more levels than lists and maps. -/
theorem keys_agree_with_equality (s : Store) (depth : Nat) :
    (∀ a b, s.Comparable depth a → s.Comparable depth b → ∃ k l,
      s.key? depth a = some k ∧ s.key? depth b = some l ∧
      s.sameKey? depth a b = some (k == l) ∧ s.equal? depth a b = some (k == l)) ∧
    (∀ a, s.Comparable depth a → s.equal? depth a a = some true) ∧
    (∀ a b, s.Comparable depth a → s.Comparable depth b →
      s.equal? depth a b = some true → s.equal? depth b a = some true) ∧
    (∀ a b c, s.Comparable depth a → s.Comparable depth b → s.Comparable depth c →
      s.equal? depth a b = some true → s.equal? depth b c = some true →
      s.equal? depth a c = some true) ∧
    (s.lists.size + s.maps.size < depth → ∀ a, s.Plain a → s.Comparable depth a) := by
  -- equality of values is equality of keys, and that is an equivalence
  have equal_iff : ∀ {a b : Value}, s.Comparable depth a → s.Comparable depth b →
      (s.equal? depth a b = some true ↔ s.key? depth a = s.key? depth b) := by
    intro a b ha hb
    rw [agree_of_comparable ha hb, Option.some.injEq, beq_iff_eq]
  refine ⟨?_, ?_, ?_, ?_, ?_⟩
  · intro a b ha hb
    obtain ⟨k, hk⟩ := ha.exists_key
    obtain ⟨l, hl⟩ := hb.exists_key
    refine ⟨k, l, hk, hl, sameKey?_eq ha.plain hk hl, ?_⟩
    rw [agree_of_comparable ha hb, hk, hl, Option.some_beq_some]
  · exact fun a ha => (equal_iff ha ha).mpr rfl
  · intro a b ha hb h
    exact (equal_iff hb ha).mpr ((equal_iff ha hb).mp h).symm
  · intro a b c ha hb hc hab hbc
    exact (equal_iff ha hc).mpr (((equal_iff ha hb).mp hab).trans ((equal_iff hb hc).mp hbc))
  · exact fun enough a ha => ⟨ha, ha.shallow enough⟩

/-- Two maps with an entry each, whose key was an empty list when the entry was written. The list
has been changed since and is also the value; one has a zero in it and one a minus zero. -/
def changedKeys : Store where
  lists := #[#[.num (Number.zero false)], #[.num (Number.zero true)]]
  maps := #[.ofList [(.list [], ⟨.list 0, .list 0⟩)], .ofList [(.list [], ⟨.list 1, .list 1⟩)]]
  functions := #[]
  scopes := #[]

theorem changedKeys_plain (negative : Bool) : changedKeys.Plain (.map negative.toNat) := by
  have number : changedKeys.Plain (.num (Number.zero negative)) := by
    refine .ofChildren (fun w hw => absurd hw List.not_mem_nil) ?_ (fun _ h => (by cases h))
    rintro x ⟨⟩
    cases negative <;> decide +kernel
  have list : changedKeys.Plain (.list negative.toNat) := by
    refine .ofChildren ?_ (fun _ h => (by cases h)) (fun _ h => (by cases h))
    intro w hw
    have item : changedKeys.children (.list negative.toNat) = [.num (Number.zero negative)] := by
      cases negative <;> rfl
    rw [item, List.mem_singleton] at hw
    rwa [hw]
  refine .ofChildren ?_ (fun _ h => (by cases h)) ?_
  · intro w hw
    have value : changedKeys.children (.map negative.toNat) = [.list negative.toNat] := by
      cases negative <;> rfl
    rw [value, List.mem_singleton] at hw
    rwa [hw]
  · rintro id ⟨⟩ k hk
    have key : (changedKeys.content negative.toNat).keys = [.list []] := by
      cases negative <;> rfl
    rw [key, List.mem_singleton] at hk
    rw [hk]
    rfl

theorem changedKeys_agree : ∃ k l, changedKeys.key? 5 (.map 0) = some k ∧
    changedKeys.key? 5 (.map 1) = some l ∧ changedKeys.sameKey? 5 (.map 0) (.map 1) = some (k == l) ∧
    changedKeys.equal? 5 (.map 0) (.map 1) = some (k == l) :=
  have agree := keys_agree_with_equality changedKeys 5
  have enough := agree.2.2.2.2 (by decide)
  agree.1 _ _ (enough _ (changedKeys_plain false)) (enough _ (changedKeys_plain true))

end Store

end ContractScript
