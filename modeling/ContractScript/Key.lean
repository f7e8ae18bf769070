/-
Keys: what a value is to a map. Lists and maps are keys by their content at the
moment they are used, numbers by their value, functions by identity. Two
values are the same key exactly when the language calls them equal.

The order of the entries of a map does not matter, so a map key has its pairs in
a fixed order: keys are ordered, and each set of pairs has one sorted list. Two
keys are then the same exactly when they are identical.
-/
import ContractScript.Native
import ContractScript.Number.Binary

set_option autoImplicit false

namespace ContractScript

/-- A value as a key. Numbers stand as bits in which both zeros are one. -/
inductive Key where
  | nil
  | bool (value : Bool)
  | num (bits : UInt64)
  | text (value : String)
  | list (items : List Key)
  | map (pairs : List (Key × Key))
  | function (id : Nat)
  | native (function : Native)
deriving Repr, Inhabited

namespace Key

/-! ## Equality -/

mutual

/-- Whether two keys are the same. -/
def same : Key → Key → Bool
  | .nil, .nil => true
  | .bool a, .bool b => a == b
  | .num a, .num b => a == b
  | .text a, .text b => a == b
  | .list as, .list bs => sameItems as bs
  | .map as, .map bs => samePairs as bs
  | .function a, .function b => a == b
  | .native a, .native b => a == b
  | _, _ => false

/-- Whether two lists have the same items in the same order. -/
def sameItems : List Key → List Key → Bool
  | [], [] => true
  | a :: as, b :: bs => same a b && sameItems as bs
  | _, _ => false

/-- Whether two lists have the same pairs in the same order. -/
def samePairs : List (Key × Key) → List (Key × Key) → Bool
  | [], [] => true
  | (k, v) :: as, (l, w) :: bs => same k l && same v w && samePairs as bs
  | _, _ => false

end

instance : BEq Key := ⟨same⟩

mutual

theorem same_self (a : Key) : same a a = true := by
  match a with
  | .nil => rfl
  | .bool b => exact beq_self_eq_true b
  | .num b => exact beq_self_eq_true b
  | .text b => exact beq_self_eq_true b
  | .list items => exact sameItems_self items
  | .map pairs => exact samePairs_self pairs
  | .function id => exact beq_self_eq_true id
  | .native f => exact beq_self_eq_true f

theorem sameItems_self (as : List Key) : sameItems as as = true := by
  match as with
  | [] => rfl
  | a :: rest =>
    rw [sameItems, same_self a, sameItems_self rest]
    rfl

theorem samePairs_self (as : List (Key × Key)) : samePairs as as = true := by
  match as with
  | [] => rfl
  | (k, v) :: rest =>
    rw [samePairs, same_self k, same_self v, samePairs_self rest]
    rfl

end

mutual

theorem eq_of_same {a b : Key} (h : same a b = true) : a = b := by
  match a, b with
  | .nil, .nil => rfl
  | .bool x, .bool y => exact congrArg Key.bool (eq_of_beq h)
  | .num x, .num y => exact congrArg Key.num (eq_of_beq h)
  | .text x, .text y => exact congrArg Key.text (eq_of_beq h)
  | .list xs, .list ys => exact congrArg Key.list (eq_of_sameItems h)
  | .map xs, .map ys => exact congrArg Key.map (eq_of_samePairs h)
  | .function x, .function y => exact congrArg Key.function (eq_of_beq h)
  | .native x, .native y => exact congrArg Key.native (eq_of_beq h)

theorem eq_of_sameItems {as bs : List Key} (h : sameItems as bs = true) : as = bs := by
  match as, bs with
  | [], [] => rfl
  | a :: as, b :: bs =>
    rw [sameItems, Bool.and_eq_true] at h
    rw [eq_of_same h.1, eq_of_sameItems h.2]

theorem eq_of_samePairs {as bs : List (Key × Key)} (h : samePairs as bs = true) : as = bs := by
  match as, bs with
  | [], [] => rfl
  | (k, v) :: as, (l, w) :: bs =>
    rw [samePairs, Bool.and_eq_true, Bool.and_eq_true] at h
    rw [eq_of_same h.1.1, eq_of_same h.1.2, eq_of_samePairs h.2]

end

instance : LawfulBEq Key where
  eq_of_beq := eq_of_same
  rfl := same_self _

/-! ## Order -/

/-- The place of a kind of keys among the kinds. -/
def rank : Key → Nat
  | .nil => 0
  | .bool _ => 1
  | .num _ => 2
  | .text _ => 3
  | .list _ => 4
  | .map _ => 5
  | .function _ => 6
  | .native _ => 7

mutual

/-- The order of two keys: by kind, then by content. -/
def order : Key → Key → Ordering
  | .bool a, .bool b => compare a.toNat b.toNat
  | .num a, .num b => compare a b
  | .text a, .text b => compare a b
  | .list as, .list bs => orderItems as bs
  | .map as, .map bs => orderPairs as bs
  | .function a, .function b => compare a b
  | .native a, .native b => compare a.name b.name
  | a, b => compare (rank a) (rank b)

/-- The order of two lists: by their first difference. -/
def orderItems : List Key → List Key → Ordering
  | [], [] => .eq
  | [], _ :: _ => .lt
  | _ :: _, [] => .gt
  | a :: as, b :: bs => (order a b).then (orderItems as bs)

/-- The order of two lists of pairs: by their first difference. -/
def orderPairs : List (Key × Key) → List (Key × Key) → Ordering
  | [], [] => .eq
  | [], _ :: _ => .lt
  | _ :: _, [] => .gt
  | (k, v) :: as, (l, w) :: bs => ((order k l).then (order v w)).then (orderPairs as bs)

end

/-- The key of a map with some pairs, whatever their order. -/
def ofPairs (pairs : List (Key × Key)) : Key :=
  .map (pairs.mergeSort fun a b => (order a.1 b.1).isLE)

mutual

/-- Whether a number that differs from itself is part of a key. -/
def hasNaN : Key → Bool
  | .num bits => Number.nanBits bits
  | .list items => anyNaN items
  | .map pairs => anyPairNaN pairs
  | _ => false

/-- Whether such a number is part of a list of keys. -/
def anyNaN : List Key → Bool
  | [] => false
  | k :: rest => hasNaN k || anyNaN rest

/-- Whether such a number is part of a list of pairs. -/
def anyPairNaN : List (Key × Key) → Bool
  | [] => false
  | (k, v) :: rest => hasNaN k || hasNaN v || anyPairNaN rest

end

end Key

end ContractScript
