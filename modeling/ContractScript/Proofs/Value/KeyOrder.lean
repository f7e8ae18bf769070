/-
The order of keys, and why the key of a map does not depend on the order of its
entries.

Keys are ordered by kind first and by content within a kind. This is a linear
order: it is oriented, transitive, and only a key itself compares equal to it.
Sorting the pairs of a map by their first components therefore yields one list for
each set of pairs, provided no two pairs share a first component; in a map none do.
-/
import ContractScript.Key
import Mathlib.Data.List.Nodup

set_option autoImplicit false

namespace ContractScript.Key

/-! ## Kinds -/

/-- Keys of different kinds are ordered by kind. -/
theorem order_of_rank_ne {a b : Key} (h : rank a ≠ rank b) :
    order a b = compare (rank a) (rank b) := by
  cases a <;> cases b <;> first | rfl | exact absurd rfl h

/-- A smaller key is of no later kind. -/
theorem rank_le_of_order {a b : Key} (h : order a b = .lt) : rank a ≤ rank b := by
  by_cases same : rank a = rank b
  · exact Nat.le_of_eq same
  · rw [order_of_rank_ne same, Nat.compare_eq_lt] at h
    exact Nat.le_of_lt h

/-- Two keys of one kind. -/
inductive SameKind : Key → Key → Prop
  | nil : SameKind .nil .nil
  | bool (x y : Bool) : SameKind (.bool x) (.bool y)
  | num (x y : UInt64) : SameKind (.num x) (.num y)
  | text (x y : String) : SameKind (.text x) (.text y)
  | list (xs ys : List Key) : SameKind (.list xs) (.list ys)
  | map (xs ys : List (Key × Key)) : SameKind (.map xs) (.map ys)
  | function (x y : Nat) : SameKind (.function x) (.function y)
  | native (f g : Native) : SameKind (.native f) (.native g)

theorem sameKind_of_rank {a b : Key} (h : rank a = rank b) : SameKind a b := by
  cases a <;> cases b <;> first | constructor | cases h

theorem bool_toNat_inj {x y : Bool} (h : x.toNat = y.toNat) : x = y := by
  cases x <;> cases y <;> first | rfl | cases h

theorem native_name_inj {f g : Native} (h : f.name = g.name) : f = g := by
  cases f <;> cases g <;> first | rfl | exact absurd h (by decide)

/-! ## Only a key itself compares equal to it -/

mutual

theorem eq_of_order {a b : Key} (h : order a b = .eq) : a = b := by
  match a, b with
  | .nil, .nil => rfl
  | .bool x, .bool y =>
    have hxy : x.toNat = y.toNat := Nat.compare_eq_eq.mp h
    rw [bool_toNat_inj hxy]
  | .num x, .num y => rw [Std.LawfulEqOrd.eq_of_compare h]
  | .text x, .text y => rw [Std.LawfulEqOrd.eq_of_compare h]
  | .list xs, .list ys => rw [eq_of_orderItems h]
  | .map xs, .map ys => rw [eq_of_orderPairs h]
  | .function x, .function y => rw [Nat.compare_eq_eq.mp h]
  | .native f, .native g => rw [native_name_inj (Std.LawfulEqOrd.eq_of_compare h)]

theorem eq_of_orderItems {as bs : List Key} (h : orderItems as bs = .eq) : as = bs := by
  match as, bs with
  | [], [] => rfl
  | a :: as, b :: bs =>
    rw [orderItems, Ordering.then_eq_eq] at h
    rw [eq_of_order h.1, eq_of_orderItems h.2]

theorem eq_of_orderPairs {as bs : List (Key × Key)} (h : orderPairs as bs = .eq) : as = bs := by
  match as, bs with
  | [], [] => rfl
  | (k, v) :: as, (l, w) :: bs =>
    rw [orderPairs, Ordering.then_eq_eq, Ordering.then_eq_eq] at h
    rw [eq_of_order h.1.1, eq_of_order h.1.2, eq_of_orderPairs h.2]

end

/-! ## The order is oriented -/

mutual

theorem order_swap (a b : Key) : order a b = (order b a).swap := by
  by_cases h : rank a = rank b
  · match a, b, sameKind_of_rank h with
    | .nil, .nil, .nil => rfl
    | .bool x, .bool y, .bool _ _ => exact Std.OrientedOrd.eq_swap
    | .num x, .num y, .num _ _ => exact Std.OrientedOrd.eq_swap
    | .text x, .text y, .text _ _ => exact Std.OrientedOrd.eq_swap
    | .list xs, .list ys, .list _ _ => exact orderItems_swap xs ys
    | .map xs, .map ys, .map _ _ => exact orderPairs_swap xs ys
    | .function x, .function y, .function _ _ => exact Std.OrientedOrd.eq_swap
    | .native f, .native g, .native _ _ => exact Std.OrientedOrd.eq_swap
  · rw [order_of_rank_ne h, order_of_rank_ne fun same => h same.symm]
    exact Std.OrientedOrd.eq_swap

theorem orderItems_swap (as bs : List Key) : orderItems as bs = (orderItems bs as).swap := by
  match as, bs with
  | [], [] => rfl
  | [], _ :: _ => rfl
  | _ :: _, [] => rfl
  | a :: as, b :: bs =>
    rw [orderItems, orderItems, Ordering.swap_then, ← order_swap a b, ← orderItems_swap as bs]

theorem orderPairs_swap (as bs : List (Key × Key)) :
    orderPairs as bs = (orderPairs bs as).swap := by
  match as, bs with
  | [], [] => rfl
  | [], _ :: _ => rfl
  | _ :: _, [] => rfl
  | (k, v) :: as, (l, w) :: bs =>
    rw [orderPairs, orderPairs, Ordering.swap_then, Ordering.swap_then, ← order_swap k l,
      ← order_swap v w, ← orderPairs_swap as bs]

end

/-- A key compares equal to itself. -/
theorem order_self (a : Key) : order a a = .eq :=
  Ordering.eq_eq_of_eq_swap (order_swap a a)

/-! ## The order is transitive -/

/-- Steps down in the first components, or in the second ones behind equal first ones, combine. -/
theorem then_lt_trans {x y z x' y' z' : Ordering} (hxy : x.then x' = .lt) (hyz : y.then y' = .lt)
    (lt : x = .lt → y = .lt → z = .lt) (ltEq : x = .lt → y = .eq → z = .lt)
    (eqLt : x = .eq → y = .lt → z = .lt)
    (eq : x = .eq → y = .eq → z = .eq ∧ (x' = .lt → y' = .lt → z' = .lt)) :
    z.then z' = .lt := by
  rw [Ordering.then_eq_lt] at hxy hyz ⊢
  rcases hxy with hx | ⟨hx, hx'⟩
  · rcases hyz with hy | ⟨hy, -⟩
    · exact .inl (lt hx hy)
    · exact .inl (ltEq hx hy)
  · rcases hyz with hy | ⟨hy, hy'⟩
    · exact .inl (eqLt hx hy)
    · exact .inr ⟨(eq hx hy).1, (eq hx hy).2 hx' hy'⟩

mutual

theorem order_trans {a b c : Key} (hab : order a b = .lt) (hbc : order b c = .lt) :
    order a c = .lt := by
  have rab := rank_le_of_order hab
  have rbc := rank_le_of_order hbc
  -- the kinds do not go down, so if they end where they started all three are the same
  by_cases h : rank a = rank c
  · have sab : rank a = rank b := by omega
    have sbc : rank b = rank c := by omega
    match a, b, sameKind_of_rank sab with
    | .nil, .nil, .nil =>
      match c, sameKind_of_rank sbc with
      | .nil, .nil => exact hab
    | .bool x, .bool y, .bool _ _ =>
      match c, sameKind_of_rank sbc with
      | .bool z, .bool _ _ =>
        show compare x.toNat z.toNat = .lt
        exact Std.TransCmp.lt_trans hab hbc
    | .num x, .num y, .num _ _ =>
      match c, sameKind_of_rank sbc with
      | .num z, .num _ _ =>
        show compare x z = .lt
        exact Std.TransCmp.lt_trans hab hbc
    | .text x, .text y, .text _ _ =>
      match c, sameKind_of_rank sbc with
      | .text z, .text _ _ =>
        show compare x z = .lt
        exact Std.TransCmp.lt_trans hab hbc
    | .list xs, .list ys, .list _ _ =>
      match c, sameKind_of_rank sbc with
      | .list zs, .list _ _ => exact orderItems_trans hab hbc
    | .map xs, .map ys, .map _ _ =>
      match c, sameKind_of_rank sbc with
      | .map zs, .map _ _ => exact orderPairs_trans hab hbc
    | .function x, .function y, .function _ _ =>
      match c, sameKind_of_rank sbc with
      | .function z, .function _ _ =>
        show compare x z = .lt
        exact Std.TransCmp.lt_trans hab hbc
    | .native x, .native y, .native _ _ =>
      match c, sameKind_of_rank sbc with
      | .native z, .native _ _ =>
        show compare x.name z.name = .lt
        exact Std.TransCmp.lt_trans hab hbc
  · rw [order_of_rank_ne h, Nat.compare_eq_lt]
    omega

theorem orderItems_trans {as bs cs : List Key} (hab : orderItems as bs = .lt)
    (hbc : orderItems bs cs = .lt) : orderItems as cs = .lt := by
  match as, bs, cs with
  | [], _ :: _, _ :: _ => rfl
  | a :: as, b :: bs, c :: cs =>
    rw [orderItems] at hab hbc ⊢
    refine then_lt_trans hab hbc (fun x y => order_trans x y) ?_ ?_ ?_
    -- an item that compares equal is the same item, so it can stand in for the other
    · intro x y
      rwa [← eq_of_order y]
    · intro x y
      rwa [eq_of_order x]
    · intro x y
      rw [eq_of_order x, eq_of_order y]
      exact ⟨order_self c, fun x' y' => orderItems_trans x' y'⟩

theorem orderPairs_trans {as bs cs : List (Key × Key)} (hab : orderPairs as bs = .lt)
    (hbc : orderPairs bs cs = .lt) : orderPairs as cs = .lt := by
  match as, bs, cs with
  | [], _ :: _, _ :: _ => rfl
  | (k, v) :: as, (l, w) :: bs, (m, u) :: cs =>
    rw [orderPairs] at hab hbc ⊢
    have both : ∀ {x y : Ordering}, x.then y = .eq → x = .eq ∧ y = .eq := Ordering.then_eq_eq.mp
    -- key and value together are the first component, the remaining pairs the second
    refine then_lt_trans hab hbc (fun x y => ?_) ?_ ?_ ?_
    · refine then_lt_trans x y (fun x y => order_trans x y) ?_ ?_ ?_
      · intro x y
        rwa [← eq_of_order y]
      · intro x y
        rwa [eq_of_order x]
      · intro x y
        rw [eq_of_order x, eq_of_order y]
        exact ⟨order_self m, fun x' y' => order_trans x' y'⟩
    · intro x y
      rwa [← eq_of_order (both y).1, ← eq_of_order (both y).2]
    · intro x y
      rwa [eq_of_order (both x).1, eq_of_order (both x).2]
    · intro x y
      rw [eq_of_order (both x).1, eq_of_order (both x).2, eq_of_order (both y).1,
        eq_of_order (both y).2, order_self, order_self]
      exact ⟨rfl, fun x' y' => orderPairs_trans x' y'⟩

end

/-- A key is no greater than another if it is smaller or the same. -/
theorem order_isLE {a b : Key} : (order a b).isLE = true ↔ order a b = .lt ∨ a = b := by
  constructor
  · intro h
    cases hab : order a b with
    | lt => exact .inl rfl
    | eq => exact .inr (eq_of_order hab)
    | gt =>
      rw [hab] at h
      cases h
  · rintro (h | rfl)
    · rw [h]
      rfl
    · rw [order_self]
      rfl

theorem order_le_trans {a b c : Key} (hab : (order a b).isLE = true)
    (hbc : (order b c).isLE = true) : (order a c).isLE = true := by
  rw [order_isLE] at hab hbc ⊢
  rcases hab with hab | rfl
  · rcases hbc with hbc | rfl
    · exact .inl (order_trans hab hbc)
    · exact .inl hab
  · exact hbc

theorem order_le_total (a b : Key) : ((order a b).isLE || (order b a).isLE) = true := by
  rw [order_swap b a]
  cases order a b <;> rfl

theorem order_le_antisymm {a b : Key} (hab : (order a b).isLE = true)
    (hba : (order b a).isLE = true) : a = b := by
  rw [order_swap b a] at hba
  apply eq_of_order
  cases h : order a b with
  | eq => rfl
  | lt =>
    rw [h] at hba
    cases hba
  | gt =>
    rw [h] at hab
    cases hab

/-! ## The key of a map -/

/-- Pairs with different first components have the same key as a map exactly if they are the same
pairs, in whatever order. -/
theorem ofPairs_eq_ofPairs {ps qs : List (Key × Key)} (hp : (ps.map Prod.fst).Nodup) :
    ofPairs ps = ofPairs qs ↔ ps.Perm qs := by
  have sorted : ∀ l : List (Key × Key), (l.mergeSort fun a b => (order a.1 b.1).isLE).Pairwise
      fun a b => (order a.1 b.1).isLE = true :=
    List.pairwise_mergeSort (fun a b c hab hbc => order_le_trans hab hbc)
      (fun a b => order_le_total a.1 b.1)
  unfold ofPairs
  rw [Key.map.injEq]
  constructor
  · intro h
    have back := List.mergeSort_perm qs fun a b => (order a.1 b.1).isLE
    rw [← h] at back
    exact (List.mergeSort_perm ps _).symm.trans back
  · intro h
    have perm := ((List.mergeSort_perm ps fun a b => (order a.1 b.1).isLE).trans h).trans
      (List.mergeSort_perm qs fun a b => (order a.1 b.1).isLE).symm
    refine perm.eq_of_pairwise ?_ (sorted ps) (sorted qs)
    -- the first components decide which pair it is
    intro a b ha hb hab hba
    have ha' : a ∈ ps := (List.mergeSort_perm ps _).mem_iff.mp ha
    have hb' : b ∈ ps := h.mem_iff.mpr ((List.mergeSort_perm qs _).mem_iff.mp hb)
    exact List.inj_on_of_nodup_map hp ha' hb' (order_le_antisymm hab hba)

end ContractScript.Key
