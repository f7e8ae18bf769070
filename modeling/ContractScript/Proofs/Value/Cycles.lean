/-
Data that contains itself.

Lists hold items, and maps hold values and the keys that they show. Writing a key, comparing and
showing go down along these; where nothing contains itself they come to an end, after at most as many
levels as there are lists and maps. So it matters how something can come to contain itself. A change
that lets one container hold more makes a cycle only if that container can be reached from what it is
given: this is a fact about relations, and everything that a store can do to a list or map is such a
change.
-/
import ContractScript.Proofs.Value.Equality
import ContractScript.Value.Display

set_option autoImplicit false

namespace ContractScript

open Relation

/-! ## Cycles and new edges -/

section Edges

variable {α : Type} {r r' : α → α → Prop} {source : α} {targets : List α}

/-- A way that uses new edges from a source passes the source, and goes on from one of their targets
along old ones, unless the source is reached from there. -/
theorem way_of_edges (edges : ∀ u w, r' u w → r u w ∨ (u = source ∧ w ∈ targets))
    (apart : ∀ b ∈ targets, ¬ReflTransGen r b source) {u w : α} (way : TransGen r' u w) :
    TransGen r u w ∨ (ReflTransGen r u source ∧ ∃ b ∈ targets, ReflTransGen r b w) := by
  induction way with
  | single edge =>
    rcases edges _ _ edge with old | ⟨rfl, target⟩
    · exact .inl (.single old)
    · exact .inr ⟨.refl, _, target, .refl⟩
  | @tail v w _ edge ih =>
    rcases edges _ _ edge with old | ⟨rfl, target⟩
    · rcases ih with way | ⟨begins, b, target, goes⟩
      · exact .inl (way.tail old)
      · exact .inr ⟨begins, b, target, goes.tail old⟩
    · rcases ih with way | ⟨_, b, target', back⟩
      · exact .inr ⟨way.to_reflTransGen, _, target, .refl⟩
      · exact absurd back (apart b target')

/-- New edges from a source make no cycle if it is reached from none of their targets. -/
theorem no_cycle_of_edges (acyclic : ∀ u, ¬TransGen r u u)
    (edges : ∀ u w, r' u w → r u w ∨ (u = source ∧ w ∈ targets))
    (apart : ∀ b ∈ targets, ¬ReflTransGen r b source) (u : α) : ¬TransGen r' u u := by
  intro cycle
  rcases way_of_edges edges apart cycle with old | ⟨back, b, target, goes⟩
  · exact acyclic u old
  · exact apart b target (goes.trans back)

end Edges

namespace OrderedMap

variable {κ ν : Type} [BEq κ]

theorem mem_replace {k : κ} {v : ν} {entries : List (κ × ν)} {e : κ × ν}
    (there : e ∈ replace k v entries) : e.2 = v ∨ e ∈ entries := by
  induction entries with
  | nil => exact .inr there
  | cons first rest ih =>
    rw [replace] at there
    split at there
    · rcases List.mem_cons.mp there with rfl | there
      · exact .inl rfl
      · exact .inr (List.mem_cons_of_mem _ there)
    · rcases List.mem_cons.mp there with rfl | there
      · exact .inr List.mem_cons_self
      · exact (ih there).imp_right (List.mem_cons_of_mem _)

theorem mem_values_insert {m : OrderedMap κ ν} {k : κ} {v w : ν} (there : w ∈ (m.insert k v).values) :
    w = v ∨ w ∈ m.values := by
  unfold values entries at there ⊢
  rw [latest_insert] at there
  obtain ⟨e, entry, rfl⟩ := List.mem_map.mp there
  have old (there : e ∈ m.latest) : e.2 ∈ m.latest.reverse.map Prod.snd :=
    List.mem_map.mpr ⟨e, List.mem_reverse.mpr there, rfl⟩
  split at entry
  · exact (mem_replace (List.mem_reverse.mp entry)).imp_right old
  · rcases List.mem_cons.mp (List.mem_reverse.mp entry) with rfl | there
    · exact .inl rfl
    · exact .inr (old there)

end OrderedMap

namespace Store

variable {s s' : Store}

/-! ## What contains what -/

/-- What an entry of a map shows: its key and its value. -/
def entryParts (e : Entry) : List Value := [e.key, e.value]

/-- What a list or map holds and shows: items, values, and keys as they are shown. -/
def parts (s : Store) : Value → List Value
  | .list id => (s.items id).toList
  | .map id => (s.content id).values.flatMap entryParts
  | _ => []

/-- A value directly contains another. -/
def Contains (s : Store) (outer inner : Value) : Prop := inner ∈ s.parts outer

/-- No list and no map can be reached from itself. -/
def Acyclic (s : Store) : Prop := ∀ v, ¬TransGen s.Contains v v

/-- What keys and equality look at is contained. -/
theorem mem_parts_of_child {v w : Value} (inside : w ∈ s.children v) : w ∈ s.parts v := by
  unfold children at inside
  split at inside
  · exact inside
  · obtain ⟨e, there, rfl⟩ := List.mem_map.mp inside
    exact List.mem_flatMap.mpr ⟨e, there, by simp [entryParts]⟩
  · exact absurd inside List.not_mem_nil

theorem exists_reference_of_part {v w : Value} (inside : w ∈ s.parts v) :
    ∃ r ∈ s.references, reference? v = some r := by
  cases v with
  | list id => exact exists_reference_of_child (s := s) (v := .list id) inside
  | map id =>
    obtain ⟨e, there, -⟩ := List.mem_flatMap.mp inside
    exact exists_reference_of_child (v := .map id) (List.mem_map.mpr ⟨e, there, rfl⟩)
  | _ => exact absurd inside List.not_mem_nil

/-! ## Going down comes to an end -/

theorem Acyclic.nests (acyclic : s.Acyclic) {depth : Nat}
    (enough : s.lists.size + s.maps.size < depth) (v : Value) : Nests s.parts depth v := by
  refine nests_of_passed exists_reference_of_part depth ∅ v (Finset.empty_subset _) ?_
    (fun w _ => acyclic w) ?_
  · exact fun r none => absurd none (Finset.notMem_empty r)
  · rw [card_references, Finset.card_empty]
    exact enough

theorem Nests.mono {inside inside' : Value → List Value}
    (fewer : ∀ v, ∀ w ∈ inside' v, w ∈ inside v) {depth : Nat} :
    ∀ {v : Value}, Nests inside depth v → Nests inside' depth v := by
  induction depth with
  | zero => exact fun h => h
  | succ depth ih => exact fun h w there => ih (h w (fewer _ w there))

/-- A value can be shown if there are enough levels. -/
theorem exists_shown {depth : Nat} : ∀ {v : Value} (nested : Bool), Nests s.parts depth v →
    ∃ text, s.show? depth nested v = some text := by
  induction depth with
  | zero => exact fun _ h => h.elim
  | succ depth ih =>
    intro v nested h
    cases v with
    | list id =>
      have each : ∀ w ∈ (s.items id).toList, ∃ text, s.show? depth true w = some text :=
        fun w there => ih true (h w there)
      obtain ⟨items, shown⟩ := exists_mapM each
      rw [show?, shown]
      exact ⟨_, rfl⟩
    | map id =>
      have entry : ∀ e ∈ (s.content id).values, ∃ text, (do
          let key ← s.show? depth true e.key
          let value ← s.show? depth true e.value
          return key ++ ": " ++ value : Option String) = some text := by
        intro e there
        -- key and value are parts of the map, which nest one level less
        have part (w : Value) (inside : w ∈ entryParts e) : ∃ text, s.show? depth true w = some text :=
          ih true (h w (List.mem_flatMap.mpr ⟨e, there, inside⟩))
        obtain ⟨key, shownKey⟩ := part e.key (by simp [entryParts])
        obtain ⟨value, shownValue⟩ := part e.value (by simp [entryParts])
        rw [shownKey, shownValue]
        exact ⟨_, rfl⟩
      obtain ⟨items, shown⟩ := exists_mapM entry
      rw [show?, shown]
      exact ⟨_, rfl⟩
    | bool b => cases b <;> exact ⟨_, rfl⟩
    | nil | num | text | function | native => exact ⟨_, rfl⟩

theorem exists_allPairs {α : Type} {test : α → α → Option Bool} {pairs : List (α × α)}
    (each : ∀ p ∈ pairs, ∃ answer, test p.1 p.2 = some answer) :
    ∃ answer, allPairs? test pairs = some answer := by
  induction pairs with
  | nil => exact ⟨true, rfl⟩
  | cons pair rest ih =>
    rw [List.forall_mem_cons] at each
    obtain ⟨⟨answer, here⟩, others⟩ := each
    rw [allPairs?, here]
    cases answer with
    | true => exact ih others
    | false => exact ⟨false, rfl⟩

/-- A value can be compared with any other if there are enough levels. -/
theorem exists_compared {depth : Nat} : ∀ {a : Value} (b : Value), s.Shallow depth a →
    ∃ answer, s.equal? depth a b = some answer := by
  induction depth with
  | zero => exact fun _ h => h.elim
  | succ depth ih =>
    intro a b h
    -- containers of one kind are compared part by part, everything else at once
    have parts {pairs : List (Value × Value)} (inside : ∀ p ∈ pairs, p.1 ∈ s.children a) :
        ∃ answer, allPairs? (s.equal? depth) pairs = some answer :=
      exists_allPairs fun p there => ih p.2 (h p.1 (inside p there))
    cases a <;> cases b <;> try exact ⟨_, rfl⟩
    case list x y =>
      rw [equal?]
      split
      · exact parts fun p there => (List.of_mem_zip there).1
      · exact ⟨false, rfl⟩
    case map x y =>
      rw [equal?]
      split
      · refine parts fun p there => ?_
        obtain ⟨e, entry, found⟩ := List.mem_filterMap.mp there
        obtain ⟨other, -, rfl⟩ := Option.map_eq_some_iff.mp found
        exact mem_children_of_entry entry
      · exact ⟨false, rfl⟩

/-- Where nothing contains itself, writing keys, comparing and showing come to an end. More levels
than there are lists and maps are enough. -/
theorem Acyclic.ends (acyclic : s.Acyclic) {depth : Nat}
    (enough : s.lists.size + s.maps.size < depth) (v : Value) :
    (∀ nested, ∃ text, s.show? depth nested v = some text) ∧
    (∀ w, ∃ answer, s.equal? depth v w = some answer) ∧ ∃ k, s.key? depth v = some k := by
  have nests := acyclic.nests enough v
  have shallow := (nests.mono fun _ _ => mem_parts_of_child).shallow
  exact ⟨fun nested => exists_shown nested nests, fun w => exists_compared w shallow,
    exists_key_of_shallow shallow⟩

/-! ## What changes of a store add -/

theorem parts_eq (lists : s'.lists = s.lists) (maps : s'.maps = s.maps) : s'.parts = s.parts := by
  funext v
  cases v with
  | list id => rw [parts, parts, items, items, lists]
  | map id => rw [parts, parts, content, content, maps]
  | _ => rfl

theorem Acyclic.of_same (acyclic : s.Acyclic) (lists : s'.lists = s.lists) (maps : s'.maps = s.maps) :
    s'.Acyclic := by
  unfold Acyclic Contains
  rw [parts_eq lists maps]
  exact acyclic

theorem contains_newList {items : Array Value} {u w : Value}
    (contains : (s.newList items).2.Contains u w) :
    s.Contains u w ∨ (u = .list s.lists.size ∧ w ∈ items.toList) := by
  cases u with
  | list id =>
    have inside : w ∈ ((s.lists.push items).getD id #[]).toList := contains
    rw [Array.getD_eq_getD_getElem?, Array.getElem?_push] at inside
    split at inside
    · rename_i new
      exact .inr ⟨congrArg Value.list new, inside⟩
    · refine .inl (?_ : w ∈ (s.lists.getD id #[]).toList)
      rw [Array.getD_eq_getD_getElem?]
      exact inside
  | _ => exact .inl contains

theorem contains_newMap {content : OrderedMap Key Entry} {u w : Value}
    (contains : (s.newMap content).2.Contains u w) :
    s.Contains u w ∨ (u = .map s.maps.size ∧ w ∈ content.values.flatMap entryParts) := by
  cases u with
  | map id =>
    have inside : w ∈ ((s.maps.push content).getD id .empty).values.flatMap entryParts := contains
    rw [Array.getD_eq_getD_getElem?, Array.getElem?_push] at inside
    split at inside
    · rename_i new
      exact .inr ⟨congrArg Value.map new, inside⟩
    · refine .inl (?_ : w ∈ (s.maps.getD id .empty).values.flatMap entryParts)
      rw [Array.getD_eq_getD_getElem?]
      exact inside
  | _ => exact .inl contains

theorem contains_push {id : ListId} {v u w : Value} (contains : (s.push id v).Contains u w) :
    s.Contains u w ∨ (u = .list id ∧ w ∈ [v]) := by
  cases u with
  | list other =>
    have inside : w ∈ ((s.lists.modify id (·.push v)).getD other #[]).toList := contains
    have old (there : w ∈ (s.lists[other]?.getD #[]).toList) : s.Contains (.list other) w := by
      show w ∈ (s.lists.getD other #[]).toList
      rw [Array.getD_eq_getD_getElem?]
      exact there
    rw [Array.getD_eq_getD_getElem?, Array.getElem?_modify] at inside
    split at inside
    · rename_i same
      subst same
      cases there : s.lists[id]? with
      | none =>
        rw [there] at inside
        exact absurd inside List.not_mem_nil
      | some items =>
        rw [there] at inside old
        rcases List.mem_append.mp (Array.toList_push ▸ inside) with before | new
        · exact .inl (old before)
        · exact .inr ⟨rfl, new⟩
    · exact .inl (old inside)
  | _ => exact .inl contains

theorem contains_put {id : MapId} {k : Key} {e : Entry} {u w : Value}
    (contains : (s.put id k e).Contains u w) :
    s.Contains u w ∨ (u = .map id ∧ w ∈ entryParts e) := by
  cases u with
  | map other =>
    have inside : w ∈ ((s.maps.modify id (·.insert k e)).getD other .empty).values.flatMap entryParts :=
      contains
    have old (there : w ∈ (s.maps[other]?.getD .empty).values.flatMap entryParts) :
        s.Contains (.map other) w := by
      show w ∈ (s.maps.getD other .empty).values.flatMap entryParts
      rw [Array.getD_eq_getD_getElem?]
      exact there
    rw [Array.getD_eq_getD_getElem?, Array.getElem?_modify] at inside
    split at inside
    · rename_i same
      subst same
      cases there : s.maps[id]? with
      | none =>
        rw [there] at inside
        exact absurd inside List.not_mem_nil
      | some content =>
        rw [there] at inside old
        -- the entry is the new one or was there before, whether its key was or not
        obtain ⟨e', entry, part⟩ := List.mem_flatMap.mp inside
        rcases OrderedMap.mem_values_insert entry with rfl | before
        · exact .inr ⟨rfl, part⟩
        · exact .inl (old (List.mem_flatMap.mpr ⟨e', before, part⟩))
    · exact .inl (old inside)
  | _ => exact .inl contains

end Store

end ContractScript
