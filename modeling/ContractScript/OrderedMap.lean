/-
Finite maps that remember the order of insertion. Writing to a key that is
present replaces its value in place; a new key goes to the end. Scopes,
namespaces, map values and settings are all kept in this form, because the
order shows in answers.
-/

set_option autoImplicit false

namespace ContractScript

/-! ## Entries -/

section Entries

variable {κ ν : Type} [BEq κ]

/-- The value of the first entry with a key. -/
def OrderedMap.lookup (k : κ) : List (κ × ν) → Option ν
  | [] => none
  | (k', v) :: rest => if k' == k then some v else lookup k rest

/-- The entries with another value at the first entry with a key. -/
def OrderedMap.replace (k : κ) (v : ν) : List (κ × ν) → List (κ × ν)
  | [] => []
  | (k', v') :: rest => if k' == k then (k', v) :: rest else (k', v') :: replace k v rest

/-- No entry has a key that an older one has; the latest entry comes first. -/
def OrderedMap.Distinct (latest : List (κ × ν)) : Prop :=
  (latest.map Prod.fst).Pairwise fun newer older => (older == newer) = false

theorem OrderedMap.map_fst_replace (k : κ) (v : ν) (entries : List (κ × ν)) :
    (replace k v entries).map Prod.fst = entries.map Prod.fst := by
  induction entries with
  | nil => rfl
  | cons e rest ih =>
    by_cases found : (e.1 == k) = true
    · rw [replace, if_pos found]
      rfl
    · rw [replace, if_neg found, List.map_cons, ih]
      rfl

theorem OrderedMap.beq_false_of_lookup (k : κ) (entries : List (κ × ν))
    (missing : lookup k entries = none) : ∀ k' ∈ entries.map Prod.fst, (k' == k) = false := by
  induction entries with
  | nil => exact fun _ h => absurd h List.not_mem_nil
  | cons e rest ih =>
    by_cases found : (e.1 == k) = true
    · rw [lookup, if_pos found] at missing
      cases missing
    · rw [lookup, if_neg found] at missing
      intro k' h
      rcases List.mem_cons.mp h with rfl | h
      · exact Bool.eq_false_iff.mpr found
      · exact ih missing k' h

theorem OrderedMap.Distinct.replace {latest : List (κ × ν)} (h : Distinct latest) (k : κ) (v : ν) :
    Distinct (OrderedMap.replace k v latest) := by
  unfold Distinct
  rw [map_fst_replace]
  exact h

theorem OrderedMap.Distinct.cons {latest : List (κ × ν)} (h : Distinct latest) (k : κ) (v : ν)
    (missing : lookup k latest = none) : Distinct ((k, v) :: latest) :=
  List.pairwise_cons.mpr ⟨beq_false_of_lookup k latest missing, h⟩

end Entries

/-! ## Maps -/

/-- A map as its entries, the last inserted first, so that a new entry is put in
front. No two entries have the same key. -/
structure OrderedMap (κ : Type) (ν : Type) [BEq κ] where
  latest : List (κ × ν)
  distinct : OrderedMap.Distinct latest
deriving Repr

namespace OrderedMap

variable {κ ν : Type} [BEq κ]

/-- The map without entries. -/
def empty : OrderedMap κ ν := ⟨[], List.Pairwise.nil⟩

instance : Inhabited (OrderedMap κ ν) := ⟨empty⟩

/-- The entries in order of first insertion. -/
def entries (m : OrderedMap κ ν) : List (κ × ν) := m.latest.reverse

/-- The number of entries. -/
def size (m : OrderedMap κ ν) : Nat := m.latest.length

/-- The keys in order. -/
def keys (m : OrderedMap κ ν) : List κ := m.entries.map Prod.fst

/-- The values in order. -/
def values (m : OrderedMap κ ν) : List ν := m.entries.map Prod.snd

/-- The value at a key. -/
def get? (m : OrderedMap κ ν) (k : κ) : Option ν := lookup k m.latest

/-- Whether a key is present. -/
def contains (m : OrderedMap κ ν) (k : κ) : Bool := (m.get? k).isSome

/-- Writes a value at a key. -/
def insert (m : OrderedMap κ ν) (k : κ) (v : ν) : OrderedMap κ ν :=
  if h : m.contains k then ⟨replace k v m.latest, m.distinct.replace k v⟩
  else ⟨(k, v) :: m.latest, m.distinct.cons k v (Option.not_isSome_iff_eq_none.mp h)⟩

/-- The map that pairs build when written one after another. -/
def ofList (pairs : List (κ × ν)) : OrderedMap κ ν :=
  pairs.foldl (fun m p => m.insert p.1 p.2) empty

/-- The first map with all entries of the second written over it. -/
def override (m later : OrderedMap κ ν) : OrderedMap κ ν :=
  later.entries.foldl (fun m p => m.insert p.1 p.2) m

theorem length_keys (m : OrderedMap κ ν) : m.keys.length = m.size := by
  unfold keys entries size
  rw [List.length_map, List.length_reverse]

/-! ## What a write does

Equality of keys need not be identity, only an equivalence: a write goes to the
entry whose key is equal, and a look-up with any equal key finds it. -/

theorem latest_insert (m : OrderedMap κ ν) (k : κ) (v : ν) :
    (m.insert k v).latest = if m.contains k then replace k v m.latest else (k, v) :: m.latest := by
  unfold insert
  split <;> rfl

/-- A write keeps the order of the keys and adds a new key at the end. -/
theorem keys_insert (m : OrderedMap κ ν) (k : κ) (v : ν) :
    (m.insert k v).keys = if m.contains k then m.keys else m.keys ++ [k] := by
  unfold keys entries
  rw [latest_insert]
  split
  · rw [List.map_reverse, List.map_reverse, map_fst_replace]
  · rw [List.reverse_cons, List.map_append]
    rfl

variable [EquivBEq κ]

theorem lookup_replace_of_beq {k k' : κ} (v : ν) (entries : List (κ × ν)) (h : (k' == k) = true)
    (present : (lookup k entries).isSome = true) : lookup k' (replace k v entries) = some v := by
  induction entries with
  | nil => exact absurd present Bool.false_ne_true
  | cons e rest ih =>
    by_cases found : (e.1 == k) = true
    · rw [replace, if_pos found, lookup, if_pos (BEq.trans found (BEq.symm h))]
    · have missed : ¬(e.1 == k') = true := fun eq => found (BEq.trans eq h)
      rw [lookup, if_neg found] at present
      rw [replace, if_neg found, lookup, if_neg missed, ih present]

theorem lookup_replace_of_not_beq {k k' : κ} (v : ν) (entries : List (κ × ν))
    (h : ¬(k' == k) = true) : lookup k' (replace k v entries) = lookup k' entries := by
  induction entries with
  | nil => rfl
  | cons e rest ih =>
    by_cases found : (e.1 == k) = true
    · have missed : ¬(e.1 == k') = true := fun eq => h (BEq.trans (BEq.symm eq) found)
      rw [replace, if_pos found, lookup, lookup, if_neg missed, if_neg missed]
    · rw [replace, if_neg found, lookup, lookup, ih]

/-- Reading any key after a write. -/
theorem get?_insert (m : OrderedMap κ ν) (k k' : κ) (v : ν) :
    (m.insert k v).get? k' = if (k' == k) = true then some v else m.get? k' := by
  unfold get?
  rw [latest_insert]
  by_cases present : m.contains k = true
  · rw [if_pos present]
    by_cases h : (k' == k) = true
    · rw [if_pos h]
      exact lookup_replace_of_beq v m.latest h present
    · rw [if_neg h]
      exact lookup_replace_of_not_beq v m.latest h
  · rw [if_neg present]
    by_cases h : (k' == k) = true
    · rw [if_pos h]
      exact if_pos (BEq.symm h)
    · rw [if_neg h]
      have missed : ¬(k == k') = true := fun eq => h (BEq.symm eq)
      exact if_neg missed

/-! ## What a map contains

Where equality of keys is identity, a map is the set of its entries. -/

section Lawful

variable {κ ν : Type} [BEq κ] [LawfulBEq κ]

theorem nodup_keys (m : OrderedMap κ ν) : m.keys.Nodup := by
  unfold keys entries List.Nodup
  rw [List.map_reverse, List.pairwise_reverse]
  refine m.distinct.imp ?_
  intro newer older h
  exact ne_of_beq_false h

theorem lookup_eq_some {k : κ} {v : ν} {latest : List (κ × ν)} (h : Distinct latest) :
    lookup k latest = some v ↔ (k, v) ∈ latest := by
  induction latest with
  | nil => exact ⟨fun h => (by cases h), fun h => absurd h List.not_mem_nil⟩
  | cons e rest ih =>
    obtain ⟨first, others⟩ := List.pairwise_cons.mp h
    by_cases found : (e.1 == k) = true
    · have here : e.1 = k := eq_of_beq found
      rw [lookup, if_pos found]
      constructor
      · rintro ⟨⟩
        rw [← here]
        exact List.mem_cons_self
      · intro h
        rcases List.mem_cons.mp h with rfl | h
        · rfl
        · have other := first k (List.mem_map.mpr ⟨_, h, rfl⟩)
          rw [here, beq_self_eq_true] at other
          cases other
    · rw [lookup, if_neg found, ih others, List.mem_cons]
      constructor
      · exact .inr
      · rintro (rfl | h)
        · exact absurd (beq_self_eq_true _) found
        · exact h

/-- Looking up a key finds the entry with that key. -/
theorem get?_eq_some {m : OrderedMap κ ν} {k : κ} {v : ν} :
    m.get? k = some v ↔ (k, v) ∈ m.entries := by
  unfold get? entries
  rw [lookup_eq_some m.distinct, List.mem_reverse]

theorem contains_iff {m : OrderedMap κ ν} {k : κ} : m.contains k = true ↔ k ∈ m.keys := by
  unfold contains keys
  rw [Option.isSome_iff_exists, List.mem_map]
  constructor
  · rintro ⟨v, hv⟩
    exact ⟨(k, v), get?_eq_some.mp hv, rfl⟩
  · rintro ⟨e, he, rfl⟩
    exact ⟨e.2, get?_eq_some.mpr he⟩

end Lawful

end OrderedMap

end ContractScript
