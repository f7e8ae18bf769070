/-
Values that are left alone, and what they are equal to.

A value that is left alone keeps its key, however the store goes on around it. And whether it is
equal to another value is a matter of keys, for the other value as it is now. If the other one contains
itself it has no key, and nothing without cycles is equal to it, since a comparison that succeeds has
gone through both values to the end.
-/
import ContractScript.Proofs.Module.MapAccess

set_option autoImplicit false

namespace ContractScript

namespace Store

variable {s s' : Store} {v w a b : Value} {levels levels' : Nat}

/-! ## Levels, keys and cycles -/

/-- If a step on every item succeeds, it does on each. -/
theorem exists_of_mapM {α β : Type} {f : α → Option β} {xs : List α} {ys : List β}
    (each : xs.mapM f = some ys) {x : α} (there : x ∈ xs) : ∃ y, f x = some y := by
  have made := List.mem_map_of_mem (f := f) there
  rw [mapM_eq_some.mp each] at made
  obtain ⟨y, -, same⟩ := List.mem_map.mp made
  exact ⟨y, same.symm⟩

/-- What a map holds is the value of an entry. -/
theorem exists_entry_of_child {id : MapId} (inside : w ∈ s.children (.map id)) :
    ∃ e ∈ (s.content id).entries, e.2.value = w := by
  obtain ⟨entry, listed, same⟩ := List.mem_map.mp inside
  obtain ⟨e, there, rfl⟩ := List.mem_map.mp listed
  exact ⟨e, there, same⟩

/-- A key is found in so many levels only if there are no more. -/
theorem shallow_of_key (levels : Nat) : ∀ {v : Value} {k : Key}, s.key? levels v = some k →
    s.Shallow levels v := by
  induction levels with
  | zero => exact fun h => nomatch h
  | succ levels ih =>
    intro v k found w inside
    cases v with
    | list id =>
      rw [key?_list] at found
      obtain ⟨ks, each, -⟩ := Option.map_eq_some_iff.mp found
      obtain ⟨l, key⟩ := exists_of_mapM each inside
      exact ih key
    | map id =>
      rw [key?_map] at found
      obtain ⟨ps, each, -⟩ := Option.map_eq_some_iff.mp found
      obtain ⟨e, there, rfl⟩ := exists_entry_of_child inside
      obtain ⟨p, pair⟩ := exists_of_mapM each there
      obtain ⟨l, key, -⟩ := Option.map_eq_some_iff.mp pair
      exact ih key
    | nil | bool | num | text | function | native => exact absurd inside List.not_mem_nil

theorem Shallow.mono (shallow : s.Shallow levels v) (enough : levels ≤ levels') : s.Shallow levels' v := by
  obtain ⟨k, found⟩ := exists_key_of_shallow shallow
  exact shallow_of_key levels' (key?_mono enough found)

/-- What has only so many levels does not contain itself. -/
theorem Shallow.acyclic (levels : Nat) : ∀ {v : Value}, s.Shallow levels v →
    ∀ w, Relation.ReflTransGen s.Holds v w → ¬Relation.TransGen s.Holds w w := by
  induction levels with
  | zero => exact fun none' => none'.elim
  | succ levels ih =>
    intro v shallow w reached cycle
    rcases reached.cases_head with rfl | ⟨u, inside, rest⟩
    · -- a cycle through the value goes through something that it holds
      obtain ⟨u, inside, back⟩ := Relation.TransGen.head'_iff.mp cycle
      exact ih (shallow u inside) u .refl (.tail' back inside)
    · exact ih (shallow u inside) w rest cycle

/-! ## Equality in whatever many levels -/

theorem eq_true_of_allPairs? {α : Type} {test : α → α → Option Bool} {pairs : List (α × α)}
    (all : allPairs? test pairs = some true) : ∀ p ∈ pairs, test p.1 p.2 = some true := by
  induction pairs with
  | nil => exact fun p there => absurd there List.not_mem_nil
  | cons p rest ih =>
    unfold allPairs? at all
    split at all
    · rename_i first
      exact List.forall_mem_cons.mpr ⟨first, ih all⟩
    · rename_i other
      exact absurd all other

/-- Maps with the same keys have an entry each under every key of the second one. -/
theorem exists_beside {x y : MapId} (same : sameKeys (s.content x) (s.content y) = true) {e : Key × Entry}
    (there : e ∈ (s.content y).entries) : ∃ v, (v, e.2.value) ∈ valuePairs (s.content x) (s.content y) := by
  obtain ⟨sizes, inside⟩ := sameKeys_iff.mp same
  have perm : (s.content x).keys.Perm (s.content y).keys := by
    refine (List.subperm_of_subset (s.content x).nodup_keys inside).perm_of_length_le ?_
    rw [OrderedMap.length_keys, OrderedMap.length_keys, sizes]
  obtain ⟨d, listed, key⟩ := List.mem_map.mp (perm.mem_iff.mpr (List.mem_map_of_mem (f := Prod.fst) there))
  exact ⟨d.2.value, mem_valuePairs.mpr ⟨e.1, d.2, e.2, key ▸ listed, there, rfl, rfl⟩⟩

/-- A comparison that finds values equal has gone through all levels of the second one. -/
theorem shallow_of_equal (levels : Nat) : ∀ {a b : Value}, s.equal? levels a b = some true →
    s.Shallow levels b := by
  induction levels with
  | zero => exact fun h => nomatch h
  | succ levels ih =>
    intro a b equal w inside
    cases b with
    | list y =>
      cases a with
      | list x =>
        simp only [equal?] at equal
        split at equal
        · rename_i sizes
          have lengths : (s.items y).toList.length ≤ (s.items x).toList.length := by simp_all
          -- as long lists as each other, so each item of the second was compared with one of the first
          have listed : w ∈ ((s.items x).toList.zip (s.items y).toList).map Prod.snd := by
            rwa [List.map_snd_zip lengths]
          obtain ⟨p, there, rfl⟩ := List.mem_map.mp listed
          exact ih (eq_true_of_allPairs? equal p there)
        · cases equal
      | nil | bool | num | text | map | function | native => cases equal
    | map y =>
      cases a with
      | map x =>
        simp only [equal?] at equal
        split at equal
        · rename_i same
          obtain ⟨e, there, rfl⟩ := exists_entry_of_child inside
          obtain ⟨v, beside⟩ := exists_beside same there
          exact ih (eq_true_of_allPairs? equal _ beside)
        · cases equal
      | nil | bool | num | text | list | function | native => cases equal
    | nil | bool | num | text | function | native => exact absurd inside List.not_mem_nil

/-- Two values are found equal once they have been compared in enough levels. -/
def Equals (s : Store) (a b : Value) : Prop := ∃ levels, s.equal? levels a b = some true

/-- No NaN is anywhere inside, and no map was given a key with one. -/
structure NaNFree (s : Store) (v : Value) : Prop where
  noNaN : ∀ x, Relation.ReflTransGen s.Holds v (.num x) → Number.isNaN x = false
  keysNoNaN : ∀ id, Relation.ReflTransGen s.Holds v (.map id) →
    ∀ k ∈ (s.content id).keys, k.hasNaN = false

theorem Plain.nanFree (plain : s.Plain v) : s.NaNFree v := ⟨plain.noNaN, plain.keysNoNaN⟩

theorem NaNFree.plain (free : s.NaNFree v) (shallow : s.Shallow levels v) : s.Plain v :=
  ⟨shallow.acyclic, free.noNaN, free.keysNoNaN⟩

/-- Values without NaN are equal exactly if they have a key and it is the same, even if one of them might
contain itself. -/
theorem equals_iff (plain : s.Plain a) (free : s.NaNFree b) :
    s.Equals a b ↔ ∃ levels k, s.key? levels a = some k ∧ s.key? levels b = some k := by
  constructor
  · rintro ⟨levels, equal⟩
    -- in more levels than there are lists and maps the first one has a key too
    let more := levels + (s.lists.size + s.maps.size + 1)
    have shallow : s.Shallow more b := (shallow_of_equal levels equal).mono (Nat.le_add_right _ _)
    have here : s.Comparable more a := ⟨plain, plain.shallow (by omega)⟩
    have agree := agree_of_comparable here ⟨free.plain shallow, shallow⟩
    rw [Agree, equal?_mono (Nat.le_add_right _ _) equal, Option.some.injEq] at agree
    obtain ⟨k, found⟩ := here.exists_key
    exact ⟨more, k, found, (beq_iff_eq.mp agree.symm).symm.trans found⟩
  · rintro ⟨levels, k, found, found'⟩
    have shallow := shallow_of_key levels found'
    have agree := agree_of_comparable ⟨plain, shallow_of_key levels found⟩ ⟨free.plain shallow, shallow⟩
    refine ⟨levels, agree.trans ?_⟩
    rw [found, found', Option.some_beq_some, beq_self_eq_true]

/-! ## Values that are left alone -/

/-- A list or map holds what it held in another store. -/
def Untouched (s s' : Store) : Value → Prop
  | .list id => s'.items id = s.items id
  | .map id => s'.content id = s.content id
  | _ => True

/-- All lists and maps inside of a value hold what they held. -/
def LeavesAlone (s s' : Store) (v : Value) : Prop :=
  ∀ w, Relation.ReflTransGen s.Holds v w → s.Untouched s' w

theorem Untouched.children (untouched : s.Untouched s' v) : s'.children v = s.children v := by
  cases v with
  | list id => exact congrArg Array.toList untouched
  | map id => exact congrArg (fun m => m.values.map Entry.value) untouched
  | nil | bool | num | text | function | native => rfl

theorem LeavesAlone.child (alone : s.LeavesAlone s' v) (inside : w ∈ s.children v) : s.LeavesAlone s' w :=
  fun u reached => alone u (.head inside reached)

theorem LeavesAlone.ofChildren (here : s.Untouched s' v) (inside : ∀ w ∈ s.children v, s.LeavesAlone s' w) :
    s.LeavesAlone s' v := by
  intro w reached
  rcases reached.cases_head with rfl | ⟨u, held, rest⟩
  · exact here
  · exact inside u held w rest

/-- What is inside of a value that is left alone was there before. -/
theorem LeavesAlone.reached (alone : s.LeavesAlone s' v) (reached : Relation.ReflTransGen s'.Holds v w) :
    Relation.ReflTransGen s.Holds v w := by
  induction reached with
  | refl => exact .refl
  | tail _ inside ih =>
    refine .tail ih ?_
    rwa [Holds, (alone _ ih).children] at inside

/-- A value that is left alone keeps its key. -/
theorem LeavesAlone.key?_eq (levels : Nat) : ∀ {v : Value}, s.LeavesAlone s' v →
    s'.key? levels v = s.key? levels v := by
  induction levels with
  | zero => exact fun _ => rfl
  | succ levels ih =>
    intro v alone
    have here := alone v .refl
    cases v with
    | list id =>
      rw [key?_list, key?_list, here.children]
      exact congrArg (Option.map Key.list) (mapM_congr fun w inside => ih (alone.child inside))
    | map id =>
      rw [key?_map, key?_map, show s'.content id = s.content id from here]
      refine congrArg (Option.map Key.ofPairs) (mapM_congr fun e there => ?_)
      rw [keyPair?, keyPair?, ih (alone.child (mem_children_of_entry there))]
    | nil | bool | num | text | function | native => rfl

theorem LeavesAlone.plain (alone : s.LeavesAlone s' v) (plain : s.Plain v) : s'.Plain v where
  acyclic w reached cycle := by
    -- the cycle was there before, since what is inside has been left alone too
    obtain ⟨u, inside, back⟩ := Relation.TransGen.head'_iff.mp cycle
    have there := alone.reached reached
    have below : s.LeavesAlone s' w := fun u further => alone u (there.trans further)
    rw [Holds, (alone w there).children] at inside
    exact plain.acyclic w there (.head' inside ((below.child inside).reached back))
  noNaN x reached := plain.noNaN x (alone.reached reached)
  keysNoNaN id reached := by
    have there := alone.reached reached
    rw [show s'.content id = s.content id from alone _ there]
    exact plain.keysNoNaN id there

end Store

end ContractScript
