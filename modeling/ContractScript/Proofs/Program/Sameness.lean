/-
Telling programs apart.

Whether two programs are the same, places included, can be found out by going through both. So
what the source of a module is read as can be settled by evaluating the reader.
-/
import ContractScript.Program

set_option autoImplicit false

namespace ContractScript

deriving instance DecidableEq for Literal

/-! ## Expressions -/

mutual

/-- Whether two expressions are the same. -/
def Expr.same : Expr → Expr → Bool
  | .literal a, .literal b => a == b
  | .group e, .group e' => e.same e'
  | .unary op p e, .unary op' p' e' => op == op' && p == p' && e.same e'
  | .binary op p a b, .binary op' p' a' b' => op == op' && p == p' && a.same a' && b.same b'
  | .logical op p a b, .logical op' p' a' b' => op == op' && p == p' && a.same a' && b.same b'
  | .choice c a b, .choice c' a' b' => c.same c' && a.same a' && b.same b'
  | .variable name, .variable name' => name == name'
  | .qualified spaces name, .qualified spaces' name' => spaces == spaces' && name == name'
  | .assign name e, .assign name' e' => name == name' && e.same e'
  | .call f p es, .call f' p' es' => f.same f' && p == p' && Expr.allSame es es'
  | .list es, .list es' => Expr.allSame es es'
  | .map pairs, .map pairs' => Expr.pairsSame pairs pairs'
  | .index c p k, .index c' p' k' => c.same c' && p == p' && k.same k'
  | .slice c p a b, .slice c' p' a' b' => c.same c' && p == p' && a.same a' && b.same b'
  | _, _ => false

/-- The same of expressions one after another. -/
def Expr.allSame : List Expr → List Expr → Bool
  | [], [] => true
  | e :: es, e' :: es' => e.same e' && Expr.allSame es es'
  | _, _ => false

/-- The same of the entries of a map. -/
def Expr.pairsSame : List (Expr × Expr) → List (Expr × Expr) → Bool
  | [], [] => true
  | (k, v) :: rest, (k', v') :: rest' => k.same k' && v.same v' && Expr.pairsSame rest rest'
  | _, _ => false

end

mutual

theorem Expr.eq_of_same {a b : Expr} (h : a.same b = true) : a = b := by
  -- expressions of different forms are not the same by evaluation
  match a, b with
  | .literal _, .literal _ => exact congrArg Expr.literal (eq_of_beq h)
  | .group _, .group _ => exact congrArg Expr.group (Expr.eq_of_same h)
  | .unary .., .unary .. =>
    simp only [Expr.same, Bool.and_eq_true, beq_iff_eq] at h
    rw [h.1.1, h.1.2, Expr.eq_of_same h.2]
  | .binary .., .binary .. =>
    simp only [Expr.same, Bool.and_eq_true, beq_iff_eq] at h
    rw [h.1.1.1, h.1.1.2, Expr.eq_of_same h.1.2, Expr.eq_of_same h.2]
  | .logical .., .logical .. =>
    simp only [Expr.same, Bool.and_eq_true, beq_iff_eq] at h
    rw [h.1.1.1, h.1.1.2, Expr.eq_of_same h.1.2, Expr.eq_of_same h.2]
  | .choice .., .choice .. =>
    simp only [Expr.same, Bool.and_eq_true] at h
    rw [Expr.eq_of_same h.1.1, Expr.eq_of_same h.1.2, Expr.eq_of_same h.2]
  | .variable _, .variable _ => exact congrArg Expr.variable (eq_of_beq h)
  | .qualified .., .qualified .. =>
    simp only [Expr.same, Bool.and_eq_true, beq_iff_eq] at h
    rw [h.1, h.2]
  | .assign .., .assign .. =>
    simp only [Expr.same, Bool.and_eq_true, beq_iff_eq] at h
    rw [h.1, Expr.eq_of_same h.2]
  | .call .., .call .. =>
    simp only [Expr.same, Bool.and_eq_true, beq_iff_eq] at h
    rw [Expr.eq_of_same h.1.1, h.1.2, Expr.eq_of_allSame h.2]
  | .list _, .list _ => exact congrArg Expr.list (Expr.eq_of_allSame h)
  | .map _, .map _ => exact congrArg Expr.map (Expr.eq_of_pairsSame h)
  | .index .., .index .. =>
    simp only [Expr.same, Bool.and_eq_true, beq_iff_eq] at h
    rw [Expr.eq_of_same h.1.1, h.1.2, Expr.eq_of_same h.2]
  | .slice .., .slice .. =>
    simp only [Expr.same, Bool.and_eq_true, beq_iff_eq] at h
    rw [Expr.eq_of_same h.1.1.1, h.1.1.2, Expr.eq_of_same h.1.2, Expr.eq_of_same h.2]

theorem Expr.eq_of_allSame {as bs : List Expr} (h : Expr.allSame as bs = true) : as = bs := by
  match as, bs with
  | [], [] => rfl
  | a :: as, b :: bs =>
    rw [Expr.allSame, Bool.and_eq_true] at h
    rw [Expr.eq_of_same h.1, Expr.eq_of_allSame h.2]

theorem Expr.eq_of_pairsSame {as bs : List (Expr × Expr)} (h : Expr.pairsSame as bs = true) :
    as = bs := by
  match as, bs with
  | [], [] => rfl
  | (k, v) :: as, (l, w) :: bs =>
    rw [Expr.pairsSame, Bool.and_eq_true, Bool.and_eq_true] at h
    rw [Expr.eq_of_same h.1.1, Expr.eq_of_same h.1.2, Expr.eq_of_pairsSame h.2]

end

mutual

theorem Expr.same_self (e : Expr) : e.same e = true := by
  match e with
  | .literal _ | .variable _ | .qualified _ _ => simp [Expr.same]
  | .group e | .unary _ _ e | .assign _ e => simp [Expr.same, Expr.same_self e]
  | .binary _ _ a b | .logical _ _ a b | .index a _ b =>
    simp [Expr.same, Expr.same_self a, Expr.same_self b]
  | .choice a b c | .slice a _ b c =>
    simp [Expr.same, Expr.same_self a, Expr.same_self b, Expr.same_self c]
  | .call f _ es => simp [Expr.same, Expr.same_self f, Expr.allSame_self es]
  | .list es => simp [Expr.same, Expr.allSame_self es]
  | .map pairs => simp [Expr.same, Expr.pairsSame_self pairs]

theorem Expr.allSame_self (es : List Expr) : Expr.allSame es es = true := by
  match es with
  | [] => rfl
  | e :: rest => simp [Expr.allSame, Expr.same_self e, Expr.allSame_self rest]

theorem Expr.pairsSame_self (pairs : List (Expr × Expr)) : Expr.pairsSame pairs pairs = true := by
  match pairs with
  | [] => rfl
  | (k, v) :: rest =>
    simp [Expr.pairsSame, Expr.same_self k, Expr.same_self v, Expr.pairsSame_self rest]

end

instance : DecidableEq Expr := fun a b =>
  decidable_of_iff (a.same b = true) ⟨Expr.eq_of_same, fun h => h ▸ a.same_self⟩

/-! ## Statements -/

deriving instance DecidableEq for Clauses, Signature

mutual

/-- Whether two statements are the same. -/
def Stmt.same : Stmt → Stmt → Bool
  | .expression e, .expression e' | .print e, .print e' => e == e'
  | .var name e, .var name' e' => name == name' && e == e'
  | .block body, .block body' => Stmt.allSame body body'
  | .branch c s t, .branch c' s' t' => c == c' && s.same s' && Stmt.optionSame t t'
  | .loop c s, .loop c' s' => c == c' && s.same s'
  | .leave p, .leave p' => p == p'
  | .yield p e, .yield p' e' => p == p' && e == e'
  | .function sig body, .function sig' body' => sig == sig' && Stmt.allSame body body'
  | .contract kind p clauses, .contract kind' p' clauses' =>
    kind == kind' && p == p' && clauses == clauses'
  | .load path p space, .load path' p' space' => path == path' && p == p' && space == space'
  | .test name p s, .test name' p' s' => name == name' && p == p' && s.same s'
  | _, _ => false

/-- The same of statements one after another. -/
def Stmt.allSame : List Stmt → List Stmt → Bool
  | [], [] => true
  | s :: rest, s' :: rest' => s.same s' && Stmt.allSame rest rest'
  | _, _ => false

/-- The same of a statement that may be missing. -/
def Stmt.optionSame : Option Stmt → Option Stmt → Bool
  | none, none => true
  | some s, some s' => s.same s'
  | _, _ => false

end

mutual

theorem Stmt.eq_of_same {a b : Stmt} (h : a.same b = true) : a = b := by
  match a, b with
  | .expression _, .expression _ => exact congrArg Stmt.expression (eq_of_beq h)
  | .print _, .print _ => exact congrArg Stmt.print (eq_of_beq h)
  | .leave _, .leave _ => exact congrArg Stmt.leave (eq_of_beq h)
  | .block _, .block _ => exact congrArg Stmt.block (Stmt.eq_of_allSame h)
  | .var .., .var .. | .yield .., .yield .. =>
    simp only [Stmt.same, Bool.and_eq_true, beq_iff_eq] at h
    rw [h.1, h.2]
  | .contract .., .contract .. | .load .., .load .. =>
    simp only [Stmt.same, Bool.and_eq_true, beq_iff_eq] at h
    rw [h.1.1, h.1.2, h.2]
  | .branch .., .branch .. =>
    simp only [Stmt.same, Bool.and_eq_true, beq_iff_eq] at h
    rw [h.1.1, Stmt.eq_of_same h.1.2, Stmt.eq_of_optionSame h.2]
  | .loop .., .loop .. =>
    simp only [Stmt.same, Bool.and_eq_true, beq_iff_eq] at h
    rw [h.1, Stmt.eq_of_same h.2]
  | .function .., .function .. =>
    simp only [Stmt.same, Bool.and_eq_true, beq_iff_eq] at h
    rw [h.1, Stmt.eq_of_allSame h.2]
  | .test .., .test .. =>
    simp only [Stmt.same, Bool.and_eq_true, beq_iff_eq] at h
    rw [h.1.1, h.1.2, Stmt.eq_of_same h.2]

theorem Stmt.eq_of_allSame {as bs : List Stmt} (h : Stmt.allSame as bs = true) : as = bs := by
  match as, bs with
  | [], [] => rfl
  | a :: as, b :: bs =>
    rw [Stmt.allSame, Bool.and_eq_true] at h
    rw [Stmt.eq_of_same h.1, Stmt.eq_of_allSame h.2]

theorem Stmt.eq_of_optionSame {a b : Option Stmt} (h : Stmt.optionSame a b = true) : a = b := by
  match a, b with
  | none, none => rfl
  | some _, some _ => exact congrArg some (Stmt.eq_of_same h)

end

mutual

theorem Stmt.same_self (s : Stmt) : s.same s = true := by
  match s with
  | .expression _ | .print _ | .var _ _ | .leave _ | .yield _ _ | .contract _ _ _ | .load _ _ _ =>
    simp [Stmt.same]
  | .block body => simp [Stmt.same, Stmt.allSame_self body]
  | .branch _ s t => simp [Stmt.same, Stmt.same_self s, Stmt.optionSame_self t]
  | .loop _ s | .test _ _ s => simp [Stmt.same, Stmt.same_self s]
  | .function _ body => simp [Stmt.same, Stmt.allSame_self body]

theorem Stmt.allSame_self (body : List Stmt) : Stmt.allSame body body = true := by
  match body with
  | [] => rfl
  | s :: rest => simp [Stmt.allSame, Stmt.same_self s, Stmt.allSame_self rest]

theorem Stmt.optionSame_self (s : Option Stmt) : Stmt.optionSame s s = true := by
  match s with
  | none => rfl
  | some s => simp [Stmt.optionSame, Stmt.same_self s]

end

instance : DecidableEq Stmt := fun a b =>
  decidable_of_iff (a.same b = true) ⟨Stmt.eq_of_same, fun h => h ▸ a.same_self⟩

end ContractScript
