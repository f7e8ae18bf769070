/-
Expressions that call nothing and assign nothing.

Evaluating one may fail and may make lists and maps, since literals, sums and slices do.
It does nothing else: no scope, no function and no list or map that was there before is
touched, and nothing is written or read. So whatever it leaves behind is out of reach for
everything that does not have its value.
-/
import ContractScript.Proofs.Program.Likeness
import ContractScript.Proofs.Run.Discipline

set_option autoImplicit false

namespace ContractScript

open EvalM

/-- A state that has more lists and maps, and is the same otherwise. -/
structure Machine.Extends (m m' : Machine) : Prop where
  lists : ∀ i, i < m.store.lists.size → m'.store.lists[i]? = m.store.lists[i]?
  maps : ∀ i, i < m.store.maps.size → m'.store.maps[i]? = m.store.maps[i]?
  rest : m' = { m with store := ⟨m'.store.lists, m'.store.maps, m.store.functions, m.store.scopes⟩ }

namespace Machine.Extends

variable {m m' : Machine}

theorem refl (m : Machine) : m.Extends m :=
  ⟨fun _ _ => rfl, fun _ _ => rfl, rfl⟩

theorem lt_lists (h : m.Extends m') {i : Nat} (low : i < m.store.lists.size) :
    i < m'.store.lists.size := by
  have found := h.lists i low
  rw [Array.getElem?_eq_getElem low] at found
  exact (Array.getElem?_eq_some_iff.mp found).1

theorem lt_maps (h : m.Extends m') {i : Nat} (low : i < m.store.maps.size) :
    i < m'.store.maps.size := by
  have found := h.maps i low
  rw [Array.getElem?_eq_getElem low] at found
  exact (Array.getElem?_eq_some_iff.mp found).1

theorem newList (h : m.Extends m') (items : Array Value) :
    m.Extends { m' with store := (m'.store.newList items).2 } where
  lists i low := by
    show (m'.store.lists.push items)[i]? = _
    rw [Array.getElem?_push, if_neg (Nat.ne_of_lt (h.lt_lists low)), h.lists i low]
  maps := h.maps
  rest := by
    rw [h.rest]
    rfl

theorem newMap (h : m.Extends m') (content : OrderedMap Key Entry) :
    m.Extends { m' with store := (m'.store.newMap content).2 } where
  lists := h.lists
  maps i low := by
    show (m'.store.maps.push content)[i]? = _
    rw [Array.getElem?_push, if_neg (Nat.ne_of_lt (h.lt_maps low)), h.maps i low]
  rest := by
    rw [h.rest]
    rfl

end Machine.Extends

namespace EvalM

variable {α : Type} {m : Machine}

/-- A step that does no more than make lists and maps. -/
def Additive (m : Machine) (step : EvalM α) : Prop :=
  Ensures m.Extends (fun _ => True) step

namespace Additive

/-- A step that changes nothing at all. -/
theorem of_keeps {step : EvalM α} (h : Keeps id step) : Additive m step := by
  intro m' extended
  have same := h m'
  unfold finalState at same
  cases run : step m' with
  | ok a m₁ =>
    rw [run] at same
    cases same
    exact ⟨extended, trivial⟩
  | error e m₁ =>
    rw [run] at same
    cases same
    exact extended

theorem bind {β : Type} {x : EvalM α} {f : α → EvalM β} (hx : Additive m x)
    (hf : ∀ a, Additive m (f a)) : Additive m (x >>= f) :=
  Ensures.bind hx fun a _ => hf a

theorem pure (a : α) : Additive m (pure a : EvalM α) :=
  Ensures.pure trivial

theorem newList (items : Array Value) : Additive m (EvalM.newList items) :=
  bind (Ensures.modifyGet fun _ h => ⟨h.newList items, trivial⟩) fun _ => pure _

theorem addValues (depth : Nat) (place : Place) (a b : Value) :
    Additive m (addValues depth place a b) := by
  unfold ContractScript.addValues
  split
  · exact pure _
  · exact bind (of_keeps (.shown depth _)) fun _ => pure _
  · exact bind (of_keeps (.shown depth _)) fun _ => pure _
  · exact bind (of_keeps .get) fun _ => newList _
  · exact of_keeps (.throw _)

theorem binaryOp (op : BinaryOp) (depth : Nat) (place : Place) (a b : Value) :
    Additive m (op.apply depth place a b) := by
  unfold BinaryOp.apply
  split
  · exact addValues depth place a b
  · exact bind (of_keeps (.same depth a b)) fun _ => pure _
  · exact bind (of_keeps (.same depth a b)) fun _ => pure _
  · split
    · exact of_keeps (.onNumbers op place _ _)
    · exact of_keeps (.throw _)

theorem sliceValue (place : Place) (collection first last : Value) :
    Additive m (sliceValue place collection first last) := by
  unfold ContractScript.sliceValue
  split
  · exact bind (of_keeps .get) fun _ => bind (of_keeps (.sliceBounds place _ first last)) fun _ =>
      newList _
  · exact bind (of_keeps (.sliceBounds place _ first last)) fun _ => pure _
  · exact of_keeps (.throw _)

section Parts

variable {value : Expr → EvalM Value} (h : ∀ e, e.isPure = true → Additive m (value e))
include h

theorem values (items : List Expr) (free : Expr.allPure items = true) :
    Additive m (values value items) := by
  induction items with
  | nil => exact pure _
  | cons e rest ih =>
    rw [Expr.allPure, Bool.and_eq_true] at free
    exact bind (h e free.1) fun _ => bind (ih free.2) fun _ => pure _

theorem entries (depth : Nat) (pairs : List (Expr × Expr)) (free : Expr.pairsPure pairs = true) :
    ∀ content, Additive m (entries depth value content pairs) := by
  induction pairs with
  | nil => exact fun _ => pure _
  | cons pair rest ih =>
    intro content
    rw [Expr.pairsPure, Bool.and_eq_true, Bool.and_eq_true] at free
    exact bind (h pair.1 free.1.1) fun _ => bind (h pair.2 free.1.2) fun _ =>
      bind (of_keeps (.keyOf depth _)) fun _ => ih free.2 _

theorem allHold (conditions : List Expr) (free : Expr.allPure conditions = true) :
    Additive m (allHold value conditions) := by
  induction conditions with
  | nil => exact pure _
  | cons e rest ih =>
    rw [Expr.allPure, Bool.and_eq_true] at free
    refine bind (h e free.1) fun v => ?_
    split
    · exact ih free.2
    · exact pure _

end Parts

end Additive

end EvalM

/-- Evaluating an expression that calls nothing and assigns nothing makes lists and maps at most. -/
theorem evaluate_additive (setup : Setup) (m : Machine) (depth : Nat) :
    ∀ e : Expr, e.isPure = true → Additive m (evaluate setup depth e) := by
  induction depth with
  | zero => exact fun _ _ => .of_keeps (.throw _)
  | succ depth ih =>
    intro e free
    cases e with
    | literal value => exact .pure _
    | group inner => exact ih inner free
    | «variable» name => exact .of_keeps (.lookup name)
    | qualified spaces name => exact .of_keeps (.lookupQualified spaces name)
    -- the two forms that could do more are excluded
    | assign name value => cases free
    | call callee close arguments => cases free
    | unary op place operand =>
      exact .bind (ih operand free) fun _ => .of_keeps (.unaryOp op place _)
    | binary op place left right =>
      rw [Expr.isPure, Bool.and_eq_true] at free
      exact .bind (ih left free.1) fun _ => .bind (ih right free.2) fun _ => .binaryOp op depth place _ _
    | logical op place left right =>
      rw [Expr.isPure, Bool.and_eq_true] at free
      refine .bind (ih left free.1) fun a => ?_
      cases op with
      | or =>
        dsimp only
        split
        · exact .pure _
        · exact ih right free.2
      | and =>
        dsimp only
        split
        · exact ih right free.2
        · exact .pure _
    | choice condition whenTrue whenFalse =>
      rw [Expr.isPure, Bool.and_eq_true, Bool.and_eq_true] at free
      refine .bind (ih condition free.1.1) fun c => ?_
      split
      · exact ih whenTrue free.1.2
      · exact ih whenFalse free.2
    | list items => exact .bind (.values ih items free) fun _ => .newList _
    | map pairs =>
      exact .bind (.entries ih depth pairs free .empty) fun content =>
        .bind (Ensures.modifyGet fun _ h => ⟨h.newMap content, trivial⟩) fun _ => .pure _
    | index collection bracket key =>
      rw [Expr.isPure, Bool.and_eq_true] at free
      exact .bind (ih collection free.1) fun _ => .bind (ih key free.2) fun _ =>
        .of_keeps (.indexValue depth bracket _ _)
    | slice collection bracket first last =>
      rw [Expr.isPure, Bool.and_eq_true, Bool.and_eq_true] at free
      exact .bind (ih collection free.1.1) fun _ => .bind (ih first free.1.2) fun _ =>
        .bind (ih last free.2) fun _ => .sliceValue bracket _ _ _

/-- The same of conditions. -/
theorem allHold_additive (setup : Setup) (depth : Nat) {conditions : List Expr}
    (free : Expr.allPure conditions = true) (m : Machine) :
    Additive m (allHold (evaluate setup depth) conditions) :=
  .allHold (evaluate_additive setup m depth) conditions free

end ContractScript
