/-
What a map holds after things have been written into it one after another.

Things with the same key form a class. The map has one entry for each class: it stands where the
first thing of the class was written, and it is what the last one has put there. So three things
are told apart, the class that a thing belongs to, the first of the class and the last of it, and
they are found by induction on the things from the end, since a write comes after all others.
-/
import ContractScript.OrderedMap
import Mathlib

set_option autoImplicit false

namespace ContractScript

/-- The classes of numbered things, where some are the same as others. The classes are numbered too,
in the order of their first members. -/
structure Classes {n : ℕ} (same : Fin n → Fin n → Prop) (count : ℕ) where
  of : Fin n → Fin count
  same_iff : ∀ i j, same i j ↔ of i = of j
  first : Fin count → Fin n
  last : Fin count → Fin n
  of_first : ∀ c, of (first c) = c
  of_last : ∀ c, of (last c) = c
  first_le : ∀ i, first (of i) ≤ i
  le_last : ∀ i, i ≤ last (of i)
  ordered : StrictMono first

/-- Classes are the same if the same things are the same. -/
def Classes.congr {n count : ℕ} {same same' : Fin n → Fin n → Prop} (classes : Classes same count)
    (agree : ∀ i j, same' i j ↔ same i j) : Classes same' count :=
  { classes with same_iff := fun i j => (agree i j).trans (classes.same_iff i j) }

/-- Of the numbers with a property there is a first. -/
theorem exists_first {n : ℕ} {p : Fin n → Prop} (some' : ∃ i, p i) : ∃ i, p i ∧ ∀ j, p j → i ≤ j := by
  obtain ⟨i, here, least⟩ := wellFounded_lt.has_min {i | p i} some'
  exact ⟨i, here, fun j there => not_lt.mp (least j there)⟩

namespace OrderedMap

variable {α κ ν : Type} {pair : α → κ × ν} {xs : List α} {k l : κ} {v : ν}

/-! ## The order of writing -/

variable (pair) in
/-- Something with the one key has been written before anything with the other. -/
def Sooner (xs : List α) (k l : κ) : Prop :=
  ∃ before, before <+: xs ∧ (∃ x ∈ before, (pair x).1 = k) ∧ ∀ x ∈ before, (pair x).1 ≠ l

theorem Sooner.exists_lt (sooner : Sooner pair xs k l) : ∃ i : Fin xs.length,
    (pair xs[i]).1 = k ∧ ∀ j : Fin xs.length, (pair xs[j]).1 = l → i < j := by
  obtain ⟨before, part, ⟨x, there, key⟩, absent⟩ := sooner
  obtain ⟨i, inside, rfl⟩ := List.getElem_of_mem there
  have bound : i < xs.length := inside.trans_le part.length_le
  have here : before[i] = xs[i] := part.getElem inside
  refine ⟨⟨i, bound⟩, ?_, fun j key' => ?_⟩
  · rw [← key, here]
    rfl
  · by_contra behind
    have early : j < before.length := lt_of_le_of_lt (not_lt.mp behind) inside
    have there : before[(j : ℕ)] = xs[j] := part.getElem early
    refine absent before[(j : ℕ)] (List.getElem_mem early) ?_
    rw [there, key']

/-! ## Writing -/

section Written

variable [BEq κ]

variable (pair) in
/-- The map into which things have been written. -/
def written (xs : List α) : OrderedMap κ ν := ofList (xs.map pair)

theorem written_concat (xs : List α) (x : α) :
    written pair (xs ++ [x]) = (written pair xs).insert (pair x).1 (pair x).2 := by
  unfold written ofList
  rw [List.map_append, List.foldl_append]
  rfl

end Written

variable [BEq κ] [LawfulBEq κ]

/-- A map has the keys that have been written. -/
theorem contains_written : (written pair xs).contains k = true ↔ ∃ x ∈ xs, (pair x).1 = k := by
  induction xs using List.reverseRecOn with
  | nil => simp [written, ofList, contains, get?, lookup, empty]
  | append_singleton xs x ih =>
    unfold contains at ih ⊢
    rw [written_concat, get?_insert]
    by_cases same : (pair x).1 = k
    · subst same
      simp
    · have different : ¬(k == (pair x).1) = true := fun h => same (eq_of_beq h).symm
      rw [if_neg different, ih]
      simp [same]

/-- What is found at a key is what the last thing with that key has put there. -/
theorem exists_last (found : (written pair xs).get? k = some v) : ∃ i : Fin xs.length,
    pair xs[i] = (k, v) ∧ ∀ j : Fin xs.length, (pair xs[j]).1 = k → j ≤ i := by
  -- what comes last is at the end of the list, so the induction is from there
  suffices ∃ i x, xs[i]? = some x ∧ pair x = (k, v) ∧
      ∀ j y, xs[j]? = some y → (pair y).1 = k → j ≤ i by
    obtain ⟨i, x, here, same, latest⟩ := this
    obtain ⟨inside, rfl⟩ := List.getElem?_eq_some_iff.mp here
    exact ⟨⟨i, inside⟩, same, fun j => latest j _ (List.getElem?_eq_getElem j.isLt)⟩
  induction xs using List.reverseRecOn with
  | nil => simp [written, ofList, get?, lookup, empty] at found
  | append_singleton xs x ih =>
    rw [written_concat, get?_insert] at found
    by_cases same : (pair x).1 = k
    · subst same
      rw [if_pos (beq_self_eq_true _), Option.some.injEq] at found
      subst found
      -- the thing at the end is the last of all, so no other condition has to be looked at
      refine ⟨xs.length, x, List.getElem?_concat_length, rfl, fun j y there _ => ?_⟩
      have bound := (List.getElem?_eq_some_iff.mp there).1
      rw [List.length_append, List.length_singleton] at bound
      omega
    · have different : ¬(k == (pair x).1) = true := fun h => same (eq_of_beq h).symm
      rw [if_neg different] at found
      obtain ⟨i, y, here, put, latest⟩ := ih found
      have inside := (List.getElem?_eq_some_iff.mp here).1
      refine ⟨i, y, (List.getElem?_append_left inside).trans here, put, fun j z there key => ?_⟩
      rw [List.getElem?_append] at there
      by_cases early : j < xs.length
      · rw [if_pos early] at there
        exact latest j z there key
      · -- the thing at the end has another key
        rw [if_neg early] at there
        obtain rfl := List.mem_singleton.mp (List.mem_of_getElem? there)
        exact absurd key same

/-- The entries stand in the order in which their keys have first been written. -/
theorem keys_ordered (xs : List α) : (written pair xs).keys.Pairwise (Sooner pair xs) := by
  induction xs using List.reverseRecOn with
  | nil => exact .nil
  | append_singleton xs x ih =>
    have earlier : (written pair xs).keys.Pairwise (Sooner pair (xs ++ [x])) :=
      ih.imp fun ⟨before, part, rest⟩ => ⟨before, part.trans (List.prefix_append _ _), rest⟩
    rw [written_concat, keys_insert]
    split
    · exact earlier
    · -- a new key comes behind all others
      rename_i missing
      refine List.pairwise_append.mpr ⟨earlier, List.pairwise_singleton _ _, fun k present l new => ?_⟩
      rw [List.mem_singleton.mp new]
      refine ⟨xs, List.prefix_append _ _, contains_written.mp (contains_iff.mpr present), ?_⟩
      exact fun y there same => missing (contains_written.mpr ⟨y, there, same⟩)

/-- The map has an entry for each class of things with the same key, in the order of the first things of
the classes, and the entry is what the last thing of the class has put there. -/
theorem exists_classes (pair : α → κ × ν) (xs : List α) :
    ∃ count, ∃ classes : Classes (fun i j : Fin xs.length => (pair xs[i]).1 = (pair xs[j]).1) count,
      (written pair xs).size = count ∧
      (written pair xs).entries = List.ofFn fun c => pair xs[classes.last c] := by
  let es := (written pair xs).entries
  have distinct {c d : Fin es.length} (same : es[c].1 = es[d].1) : c = d := by
    have nodup : (es.map Prod.fst).Nodup := (written pair xs).nodup_keys
    have place : (⟨c, by simp⟩ : Fin (es.map Prod.fst).length) = ⟨d, by simp⟩ :=
      nodup.injective_get (by simpa using same)
    exact Fin.ext (Fin.mk.inj place)
  -- the class of a thing is the place of the entry with its key
  have placed (i : Fin xs.length) : ∃ c : Fin es.length, es[c].1 = (pair xs[i]).1 := by
    have there : (pair xs[i]).1 ∈ (written pair xs).keys :=
      contains_iff.mp (contains_written.mpr ⟨xs[i], List.getElem_mem i.isLt, rfl⟩)
    obtain ⟨e, listed, same⟩ := List.mem_map.mp there
    obtain ⟨c, inside, rfl⟩ := List.getElem_of_mem listed
    exact ⟨⟨c, inside⟩, same⟩
  choose place key_place using placed
  have ending (c : Fin es.length) : ∃ i : Fin xs.length, pair xs[i] = es[c] ∧
      ∀ j : Fin xs.length, (pair xs[j]).1 = es[c].1 → j ≤ i :=
    exists_last (get?_eq_some.mpr (List.getElem_mem c.isLt))
  choose last put latest using ending
  have begun (c : Fin es.length) : ∃ i : Fin xs.length, (pair xs[i]).1 = es[c].1 :=
    ⟨last c, congrArg Prod.fst (put c)⟩
  choose first key_first earliest using fun c => exists_first (begun c)
  refine ⟨es.length, ⟨place, fun i j => ?_, first, last, fun c => ?_, fun c => ?_, fun i => ?_, fun i => ?_,
    fun c d before => ?_⟩, ?_, ?_⟩
  · rw [← key_place i, ← key_place j]
    exact ⟨distinct, fun same => by rw [same]⟩
  · exact distinct ((key_place _).trans (key_first c))
  · exact distinct ((key_place _).trans (congrArg Prod.fst (put c)))
  · exact earliest _ i (key_place i).symm
  · exact latest _ i (key_place i).symm
  · -- something of the class in front was written before all of the other one, and its first too
    have ordered : (es.map Prod.fst).Pairwise (Sooner pair xs) := keys_ordered xs
    have sooner := List.pairwise_iff_getElem.mp ordered c d (by simp) (by simp) before
    rw [List.getElem_map, List.getElem_map] at sooner
    obtain ⟨i, key, ahead⟩ := sooner.exists_lt
    exact (earliest c i key).trans_lt (ahead (first d) (key_first d))
  · exact (List.length_reverse ..).symm
  · exact List.ext_getElem (by simp [es]) fun c h₁ h₂ => by
      rw [List.getElem_ofFn]
      exact (put ⟨c, h₁⟩).symm

end OrderedMap

end ContractScript
