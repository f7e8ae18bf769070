/-
Places mean nothing to the parser.

Two sources with the same tokens at other places are read in step: at every point the
tokens that are left correspond, and so do the reports so far. This is shown for two
productions at a time. They go alongside each other if from corresponding states they end
in corresponding states, either both giving up for the same reason or with results that
are related. The programs that come out are alike, and the diagnostics complain about the
same things in the same order.
-/
import ContractScript.Proofs.Program.Likeness

set_option autoImplicit false

namespace ContractScript

variable {R : Place → Place → Prop}

/-- Tokens of the same kind and text, at places that are related. -/
structure Token.Like (R : Place → Place → Prop) (t t' : Token) : Prop where
  kind : t.kind = t'.kind
  lexeme : t.lexeme.Like R t'.lexeme

namespace Token.Like

variable {t t' : Token}

theorem place (h : t.Like R t') : R t.place t'.place :=
  h.lexeme.place

theorem content (h : t.Like R t') : t.content = t'.content := by
  unfold Token.content
  rw [h.lexeme.text]

theorem number (h : t.Like R t') : t.number = t'.number := by
  unfold Token.number
  rw [h.lexeme.text]

end Token.Like

namespace Parser

variable {α β γ δ : Type}

/-! ## Corresponding states -/

/-- The same point in the readings of two sources. -/
structure State.Like (R : Place → Place → Prop) (s s' : State) : Prop where
  rest : List.Forall₂ (Token.Like R) s.rest s'.rest
  total : s.total = s'.total
  ending : R s.ending s'.ending
  reports : List.Forall₂ (Diagnostic.Like R) s.reports s'.reports

/-- Two readings that stopped for the same reason, or with results that are related. -/
inductive Abreast (R : Place → Place → Prop) (P : α → β → Prop) :
    EStateM.Result Stop State α → EStateM.Result Stop State β → Prop
  | ok {a : α} {b : β} {s s' : State} (result : P a b) (state : s.Like R s') :
      Abreast R P (.ok a s) (.ok b s')
  | error {stop : Stop} {s s' : State} (state : s.Like R s') :
      Abreast R P (.error stop s) (.error stop s')

/-- From corresponding states two productions stop in corresponding states. -/
def Alongside (R : Place → Place → Prop) (P : α → β → Prop) (x : ParseM α) (y : ParseM β) : Prop :=
  ∀ s s', s.Like R s' → Abreast R P (x s) (y s')

namespace Alongside

variable {P : α → β → Prop} {Q : γ → δ → Prop} {x : ParseM α} {y : ParseM β}

theorem pure {a : α} {b : β} (h : P a b) : Alongside R P (pure a) (pure b) :=
  fun _ _ hs => .ok h hs

theorem bind {f : α → ParseM γ} {g : β → ParseM δ} (h : Alongside R P x y)
    (next : ∀ a b, P a b → Alongside R Q (f a) (g b)) : Alongside R Q (x >>= f) (y >>= g) := by
  intro s s' hs
  have first := h s s' hs
  show Abreast R Q (EStateM.bind x f s) (EStateM.bind y g s')
  unfold EStateM.bind
  generalize x s = r at first
  generalize y s' = r' at first
  cases first with
  | ok result state => exact next _ _ result _ _ state
  | error state => exact .error state

/-- A part whose results are the same, and what follows it. -/
theorem bindSame {x y : ParseM α} {f : α → ParseM γ} {g : α → ParseM δ} (h : Alongside R Eq x y)
    (next : ∀ a, Alongside R Q (f a) (g a)) : Alongside R Q (x >>= f) (y >>= g) :=
  h.bind fun a b hab => by
    subst hab
    exact next a

theorem ite (c : Prop) [Decidable c] {x' : ParseM α} {y' : ParseM β} (h : Alongside R P x y)
    (h' : Alongside R P x' y') : Alongside R P (if c then x else x') (if c then y else y') := by
  split
  · exact h
  · exact h'

theorem outOfLevels : Alongside R P (throw .depth) (throw .depth) :=
  fun _ _ hs => .error hs

/-! ### Tokens -/

theorem current? : Alongside R (Option.Rel (Token.Like R)) Parser.current? Parser.current? := by
  intro s s' hs
  refine .ok ?_ hs
  have rest := hs.rest
  generalize s.rest = ts at rest
  generalize s'.rest = ts' at rest
  cases rest with
  | nil => exact .none
  | cons first _ => exact .some first

theorem total : Alongside R Eq Parser.total Parser.total :=
  fun _ _ hs => .ok hs.total hs

theorem advance : Alongside R Eq Parser.advance Parser.advance :=
  fun _ _ hs => .ok rfl ⟨List.forall₂_drop 1 hs.rest, hs.total, hs.ending, hs.reports⟩

theorem check (kind : Token.Kind) : Alongside R Eq (Parser.check kind) (Parser.check kind) := by
  refine current?.bind fun next next' h => ?_
  cases h with
  | none => exact .pure rfl
  | some same => exact .pure (by rw [same.kind])

theorem acceptMap {f : Token → Option α} {g : Token → Option β}
    (h : ∀ t t', Token.Like R t t' → Option.Rel P (f t) (g t')) :
    Alongside R (Option.Rel P) (Parser.acceptMap f) (Parser.acceptMap g) := by
  refine current?.bind fun next next' hnext => ?_
  cases hnext with
  | none => exact .pure .none
  | @some t t' same =>
    show Alongside R (Option.Rel P) (taking (f t)) (taking (g t'))
    have found := h t t' same
    generalize f t = a at found
    generalize g t' = b at found
    cases found with
    | none => exact .pure .none
    | some result => exact advance.bindSame fun _ => .pure (.some result)

theorem accept (kind : Token.Kind) :
    Alongside R (Option.Rel (Token.Like R)) (Parser.accept kind) (Parser.accept kind) := by
  refine acceptMap fun t t' same => ?_
  rw [same.kind]
  split
  · exact .some same
  · exact .none

theorem accepted (kind : Token.Kind) :
    Alongside R Eq (Parser.accepted kind) (Parser.accepted kind) := by
  refine (accept kind).bind fun _ _ h => ?_
  cases h with
  | none => exact .pure rfl
  | some _ => exact .pure rfl

/-! ### Reports -/

theorem complainAt {t t' : Token} (h : t.Like R t') (complaint : Complaint) :
    Alongside R Eq (Parser.complainAt t complaint) (Parser.complainAt t' complaint) := by
  refine fun _ _ hs => .ok rfl ⟨hs.rest, hs.total, hs.ending, .cons ?_ hs.reports⟩
  exact ⟨h.place, congrArg Spot.lexeme h.lexeme.text, rfl⟩

theorem complain (complaint : Complaint) :
    Alongside R Eq (Parser.complain complaint) (Parser.complain complaint) := by
  refine current?.bind fun next next' h => ?_
  cases h with
  | none =>
    exact fun _ _ hs => .ok rfl ⟨hs.rest, hs.total, hs.ending, .cons ⟨hs.ending, rfl, rfl⟩ hs.reports⟩
  | some same => exact complainAt same complaint

theorem fail (complaint : Complaint) :
    Alongside R P (Parser.fail complaint) (Parser.fail complaint) :=
  (complain complaint).bindSame fun _ _ _ hs => .error hs

theorem complainUnless (holds : Bool) {t t' : Token} (h : t.Like R t') (complaint : Complaint) :
    Alongside R Eq (Parser.complainUnless holds t complaint)
      (Parser.complainUnless holds t' complaint) :=
  .ite _ (.pure rfl) (complainAt h complaint)

theorem limitCount (complaint : Complaint) (count : Nat) :
    Alongside R Eq (Parser.limitCount complaint count) (Parser.limitCount complaint count) :=
  .ite _ (complain complaint) (.pure rfl)

theorem expect (kind : Token.Kind) (what : String) :
    Alongside R (Token.Like R) (Parser.expect kind what) (Parser.expect kind what) := by
  refine (accept kind).bind fun _ _ h => ?_
  cases h with
  | none => exact fail (.expect what)
  | some same => exact .pure same

/-! ### Parts that may be missing, and repetition -/

theorem following {kind : Token.Kind} (h : Alongside R P x y) :
    Alongside R (Option.Rel P) (Parser.following kind x) (Parser.following kind y) :=
  (accepted kind).bindSame fun _ => .ite _ (h.bind fun _ _ hP => .pure (.some hP)) (.pure .none)

theorem itemUnless {close : Token.Kind} (h : Alongside R P x y) :
    Alongside R (Option.Rel P) (Parser.itemUnless close x) (Parser.itemUnless close y) :=
  (check close).bindSame fun _ => .ite _ (.pure .none) (h.bind fun _ _ hP => .pure (.some hP))

theorem commaSeparated {before : Nat → ParseM Unit}
    (hbefore : ∀ count, Alongside R Eq (before count) (before count)) (h : Alongside R P x y)
    (rounds : Nat) : ∀ count, Alongside R (List.Forall₂ P)
      (Parser.commaSeparated before x rounds count) (Parser.commaSeparated before y rounds count) := by
  induction rounds with
  | zero => exact fun _ => .pure .nil
  | succ rounds ih =>
    intro count
    rw [Parser.commaSeparated, Parser.commaSeparated]
    refine (hbefore count).bindSame fun _ => h.bind fun a b hab => ?_
    exact (accepted .comma).bindSame fun _ => .ite _
      ((ih (count + 1)).bind fun _ _ more => .pure (.cons hab more)) (.pure (.cons hab .nil))

theorem itemsUntil {close : Token.Kind} {before : Nat → ParseM Unit}
    (hbefore : ∀ count, Alongside R Eq (before count) (before count)) (h : Alongside R P x y) :
    Alongside R (List.Forall₂ P) (Parser.itemsUntil close before x)
      (Parser.itemsUntil close before y) :=
  (check close).bindSame fun _ => .ite _ (.pure .nil)
    (total.bindSame fun m => commaSeparated hbefore h (m + 1) 0)

/-! ### Recovering -/

theorem skip_like {ts ts' : List Token} (h : List.Forall₂ (Token.Like R) ts ts') :
    ∀ previous, List.Forall₂ (Token.Like R) (skip previous ts) (skip previous ts') := by
  induction h with
  | nil => exact fun _ => .nil
  | cons first rest ih =>
    intro previous
    rw [skip, skip, first.kind]
    split
    · exact .cons first rest
    · exact ih _

theorem recover_like {ts ts' : List Token} (h : List.Forall₂ (Token.Like R) ts ts') :
    List.Forall₂ (Token.Like R) (recover ts) (recover ts') := by
  cases h with
  | nil => exact .nil
  | cons first rest =>
    rw [recover, recover, first.kind]
    exact skip_like rest _

theorem recovering {P : Option Stmt → Option Stmt → Prop} {x y : ParseM (Option Stmt)}
    (h : Alongside R P x y) (nothing : P none none) :
    Alongside R P (Parser.recovering x) (Parser.recovering y) := by
  intro s s' hs
  have first := h s s' hs
  rw [recovering_run x, recovering_run y]
  generalize x s = r at first
  generalize y s' = r' at first
  cases first with
  | ok result state => exact .ok result state
  | @error stop _ _ state =>
    cases stop with
    | fault =>
      -- what is skipped depends on the kinds of tokens
      exact .ok nothing ⟨recover_like state.rest, state.total, state.ending, state.reports⟩
    | depth => exact .error state

theorem attempting {P : Option Stmt → Option Stmt → Prop} {x y : ParseM (Option Stmt)}
    (h : Alongside R P x y) :
    Alongside R (Option.Rel P) (Parser.attempting x) (Parser.attempting y) := by
  intro s s' hs
  have first := h s s' hs
  show Abreast R _ (EStateM.tryCatch (EStateM.map some x) _ s)
    (EStateM.tryCatch (EStateM.map some y) _ s')
  unfold EStateM.tryCatch EStateM.map
  generalize x s = r at first
  generalize y s' = r' at first
  cases first with
  | ok result state => exact .ok (.some result) state
  | error state =>
    exact ((complain .nestsTooDeeply).bindSame fun _ => .pure .none) _ _ state

end Alongside

/-! ## Expressions -/

/-- Nodes that are built in the same way from operands that are alike. -/
def JoinLike (R : Place → Place → Prop) (join join' : Expr → Expr → Expr) : Prop :=
  ∀ a a' b b', Expr.Like R a a' → Expr.Like R b b' → Expr.Like R (join a b) (join' a' b')

theorem join?_like (t : Tier) {u u' : Token} (h : u.Like R u') :
    Option.Rel (JoinLike R) ((t.join? u.kind).map fun join => join u.place)
      ((t.join? u'.kind).map fun join => join u'.place) := by
  have place := h.place
  rw [h.kind]
  generalize u'.kind = kind
  cases hjoin : t.join? kind with
  | none => exact .none
  | some join =>
    refine .some fun a a' b b' left right => ?_
    cases Grammar.join?_eq_some.mp hjoin with
    | or | and => exact .logical place left right
    | unequal | equal | greater | greaterEqual | less | lessEqual | subtract | add | divide
    | multiply | remainder => exact .binary place left right

theorem unaryOp?_like {t t' : Token} (h : t.Like R t') :
    Option.Rel (PairLike Eq R) (unaryOp? t) (unaryOp? t') := by
  unfold unaryOp?
  rw [h.kind]
  split
  · exact .some (.mk rfl h.place)
  · exact .some (.mk rfl h.place)
  · exact .none

theorem literal?_like {t t' : Token} (h : t.Like R t') :
    Option.Rel Eq (literal? t) (literal? t') := by
  have same : literal? t = literal? t' := by
    unfold literal?
    rw [h.kind, h.number, h.content]
  rw [same]
  exact optionRel_refl fun _ _ => rfl

theorem operators_alongside {t : Tier} {operand : ParseM Expr}
    (h : Alongside R (Expr.Like R) operand operand) (rounds : Nat) :
    ∀ e e', Expr.Like R e e' →
      Alongside R (Expr.Like R) (operators t operand rounds e) (operators t operand rounds e') := by
  induction rounds with
  | zero => exact fun e e' he => .pure he
  | succ rounds ih =>
    intro e e' he
    rw [operators, operators]
    refine (Alongside.acceptMap fun _ _ => join?_like t).bind fun op op' hop => ?_
    cases hop with
    | none => exact .pure he
    | some hjoin => exact h.bind fun _ _ right => ih _ _ (hjoin _ _ _ _ he right)

theorem qualifiers_alongside (rounds : Nat) : Alongside R (List.Forall₂ (Lexeme.Like R))
    (qualifiers rounds) (qualifiers rounds) := by
  induction rounds with
  | zero => exact .pure .nil
  | succ rounds ih =>
    rw [qualifiers]
    refine (Alongside.accepted _).bindSame fun _ => .ite _ ?_ (.pure .nil)
    exact (Alongside.expect _ _).bind fun _ _ same => ih.bind fun _ _ more =>
      .pure (.cons same.lexeme more)

theorem suffixes_alongside {call subscript : Expr → Place → ParseM Expr}
    (hcall : ∀ e e' p p', Expr.Like R e e' → R p p' →
      Alongside R (Expr.Like R) (call e p) (call e' p'))
    (hsubscript : ∀ e e' p p', Expr.Like R e e' → R p p' →
      Alongside R (Expr.Like R) (subscript e p) (subscript e' p')) (rounds : Nat) :
    ∀ e e', Expr.Like R e e' → Alongside R (Expr.Like R) (suffixes call subscript rounds e)
      (suffixes call subscript rounds e') := by
  induction rounds with
  | zero => exact fun e e' he => .pure he
  | succ rounds ih =>
    intro e e' he
    rw [suffixes, suffixes]
    refine (Alongside.accept _).bind fun paren paren' hparen => ?_
    cases hparen with
    | some same => exact (hcall _ _ _ _ he same.place).bind fun _ _ next => ih _ _ next
    | none =>
      refine (Alongside.accept _).bind fun square square' hsquare => ?_
      cases hsquare with
      | some same => exact (hsubscript _ _ _ _ he same.place).bind fun _ _ next => ih _ _ next
      | none => exact .pure he

theorem getLast?_like {ls ls' : List Lexeme} (h : List.Forall₂ (Lexeme.Like R) ls ls') :
    Option.Rel (Lexeme.Like R) ls.getLast? ls'.getLast? := by
  rw [← List.head?_reverse, ← List.head?_reverse]
  have backwards := List.forall₂_reverse_iff.mpr h
  generalize ls.reverse = ms at backwards
  generalize ls'.reverse = ms' at backwards
  cases backwards with
  | nil => exact .none
  | cons last _ => exact .some last

theorem nameExpr_like {l l' : Lexeme} {ls ls' : List Lexeme} (name : l.Like R l')
    (more : List.Forall₂ (Lexeme.Like R) ls ls') :
    Expr.Like R (nameExpr l ls) (nameExpr l' ls') := by
  have front : List.Forall₂ (Lexeme.Like R) ls.dropLast ls'.dropLast := by
    rw [List.dropLast_eq_take, List.dropLast_eq_take, more.length_eq]
    exact List.forall₂_take _ more
  have last := getLast?_like more
  unfold nameExpr
  generalize ls.getLast? = found at last
  generalize ls'.getLast? = found' at last
  cases last with
  | none => exact .variable name
  | some same => exact .qualified (.cons name front) same

theorem assigning_alongside {t t' : Token} {e e' v v' : Expr} (equals : t.Like R t')
    (target : Expr.Like R e e') (value : Expr.Like R v v') :
    Alongside R (Expr.Like R) (assigning t e v) (assigning t' e' v') := by
  have dropped : Alongside R (Expr.Like R)
      (do complainAt t .invalidTarget; return e) (do complainAt t' .invalidTarget; return e') :=
    (Alongside.complainAt equals _).bindSame fun _ => .pure target
  cases target with
  | «variable» name => exact .pure (.assign name value)
  | literal | group | unary | binary | logical | choice | qualified | assign | call | list | map
  | index | slice => exact dropped

/-- The productions of expressions at one number of levels. -/
structure ExpressionsAlongside (R : Place → Place → Prop) (depth : Nat) : Prop where
  expression : Alongside R (Expr.Like R) (expression depth) (expression depth)
  assignment : Alongside R (Expr.Like R) (assignment depth) (assignment depth)
  choice : Alongside R (Expr.Like R) (choice depth) (choice depth)
  tier : ∀ t, Alongside R (Expr.Like R) (tier depth t) (tier depth t)
  unary : Alongside R (Expr.Like R) (unary depth) (unary depth)
  postfixed : Alongside R (Expr.Like R) (postfixed depth) (postfixed depth)
  arguments : ∀ e e', Expr.Like R e e' →
    Alongside R (Expr.Like R) (arguments depth e) (arguments depth e')
  subscript : ∀ e e' p p', Expr.Like R e e' → R p p' →
    Alongside R (Expr.Like R) (subscript depth e p) (subscript depth e' p')
  primary : Alongside R (Expr.Like R) (primary depth) (primary depth)
  mapEntries : Alongside R (Expr.Like R) (mapEntries depth) (mapEntries depth)

section ExpressionLevel

variable {depth : Nat} (ih : ExpressionsAlongside R depth)
include ih

theorem assignment_alongside :
    Alongside R (Expr.Like R) (assignment (depth + 1)) (assignment (depth + 1)) := by
  rw [assignment]
  refine ih.choice.bind fun _ _ target => (Alongside.accept _).bind fun equals equals' h => ?_
  cases h with
  | none => exact .pure target
  | some same => exact ih.assignment.bind fun _ _ value => assigning_alongside same target value

theorem choice_alongside :
    Alongside R (Expr.Like R) (choice (depth + 1)) (choice (depth + 1)) := by
  rw [choice]
  refine (ih.tier .or).bind fun _ _ condition => (Alongside.accepted _).bindSame fun _ =>
    .ite _ ?_ (.pure condition)
  exact ih.choice.bind fun _ _ whenTrue => (Alongside.expect _ _).bind fun _ _ _ =>
    ih.choice.bind fun _ _ whenFalse => .pure (.choice condition whenTrue whenFalse)

theorem tier_alongside (t : Tier) :
    Alongside R (Expr.Like R) (tier (depth + 1) t) (tier (depth + 1) t) := by
  have whole : ∀ operand : ParseM Expr, Alongside R (Expr.Like R) operand operand →
      Alongside R (Expr.Like R) (do let left ← operand; operators t operand (← total) left)
        (do let left ← operand; operators t operand (← total) left) :=
    fun operand h => h.bind fun _ _ left => Alongside.total.bindSame fun m =>
      operators_alongside h m _ _ left
  rw [tier]
  cases ht : t.tighter? with
  | some next => exact whole _ (ih.tier next)
  | none => exact whole _ ih.unary

theorem unary_alongside :
    Alongside R (Expr.Like R) (unary (depth + 1)) (unary (depth + 1)) := by
  rw [unary]
  refine (Alongside.acceptMap fun _ _ => unaryOp?_like).bind fun op op' h => ?_
  cases h with
  | none => exact ih.postfixed
  | some same =>
    cases same with
    | mk first place =>
      subst first
      exact ih.unary.bind fun _ _ operand => .pure (.unary place operand)

theorem postfixed_alongside :
    Alongside R (Expr.Like R) (postfixed (depth + 1)) (postfixed (depth + 1)) := by
  rw [postfixed]
  exact ih.primary.bind fun _ _ operand => Alongside.total.bindSame fun m =>
    suffixes_alongside (fun e e' _ _ he _ => ih.arguments e e' he) ih.subscript m _ _ operand

theorem arguments_alongside {e e' : Expr} (callee : Expr.Like R e e') :
    Alongside R (Expr.Like R) (arguments (depth + 1) e) (arguments (depth + 1) e') := by
  rw [arguments, arguments]
  exact (Alongside.itemsUntil (Alongside.limitCount _) ih.expression).bind fun _ _ items =>
    (Alongside.expect _ _).bind fun _ _ close => .pure (.call callee close.place items)

theorem subscript_alongside {e e' : Expr} {p p' : Place} (collection : Expr.Like R e e')
    (bracket : R p p') :
    Alongside R (Expr.Like R) (subscript (depth + 1) e p) (subscript (depth + 1) e' p') := by
  rw [subscript, subscript]
  refine ih.expression.bind fun _ _ first => (Alongside.accepted _).bindSame fun _ => .ite _ ?_ ?_
  · exact ih.expression.bind fun _ _ last => (Alongside.expect _ _).bind fun _ _ _ =>
      .pure (.slice collection bracket first last)
  · exact (Alongside.expect _ _).bind fun _ _ _ => .pure (.index collection bracket first)

theorem mapEntries_alongside :
    Alongside R (Expr.Like R) (mapEntries (depth + 1)) (mapEntries (depth + 1)) := by
  rw [mapEntries]
  refine (Alongside.itemsUntil (P := PairLike (Expr.Like R) (Expr.Like R))
    (fun _ => .pure rfl) ?_).bind fun _ _ entries => (Alongside.expect _ _).bind fun _ _ _ =>
      .pure (.map entries)
  exact ih.expression.bind fun _ _ key => (Alongside.expect _ _).bind fun _ _ _ =>
    ih.expression.bind fun _ _ value => .pure (.mk key value)

theorem primary_alongside :
    Alongside R (Expr.Like R) (primary (depth + 1)) (primary (depth + 1)) := by
  rw [primary]
  refine (Alongside.acceptMap fun _ _ => literal?_like).bind fun value value' h => ?_
  cases h with
  | some same =>
    subst same
    exact .pure (.literal _)
  | none =>
    refine (Alongside.accept _).bind fun name name' h => ?_
    cases h with
    | some same =>
      exact Alongside.total.bindSame fun m => (qualifiers_alongside m).bind fun _ _ more =>
        .pure (nameExpr_like same.lexeme more)
    | none =>
      refine (Alongside.accepted _).bindSame fun _ => .ite _ ?group ?_
      case group =>
        exact ih.expression.bind fun _ _ inner => (Alongside.expect _ _).bind fun _ _ _ =>
          .pure (.group inner)
      refine (Alongside.accepted _).bindSame fun _ => .ite _ ?list ?_
      case list =>
        exact (Alongside.itemsUntil (fun _ => .pure rfl) ih.expression).bind fun _ _ items =>
          (Alongside.expect _ _).bind fun _ _ _ => .pure (.list items)
      refine (Alongside.accepted _).bindSame fun _ => .ite _ ?map ?_
      case map => exact ih.mapEntries
      refine (Alongside.acceptMap (P := Token.Like R) fun t t' same => ?_).bind fun op op' h => ?_
      -- an operator without its left operand is told by its kind alone
      · rw [same.kind]
        split
        · exact .some same
        · exact .none
      · cases h with
        | none => exact .fail _
        | some same => exact (Alongside.complainAt same _).bindSame fun _ _ _ hs => .error hs

end ExpressionLevel

theorem expressionsAlongside (depth : Nat) : ExpressionsAlongside R depth := by
  induction depth with
  | zero =>
    exact ⟨.outOfLevels, .outOfLevels, .outOfLevels, fun _ => .outOfLevels, .outOfLevels,
      .outOfLevels, fun _ _ _ => .outOfLevels, fun _ _ _ _ _ _ => .outOfLevels, .outOfLevels,
      .outOfLevels⟩
  | succ depth ih =>
    exact
      { expression := by
          rw [expression]
          exact ih.assignment
        assignment := assignment_alongside ih
        choice := choice_alongside ih
        tier := tier_alongside ih
        unary := unary_alongside ih
        postfixed := postfixed_alongside ih
        arguments := fun _ _ callee => arguments_alongside ih callee
        subscript := fun _ _ _ _ collection bracket => subscript_alongside ih collection bracket
        primary := primary_alongside ih
        mapEntries := mapEntries_alongside ih }

/-! ## Contracts -/

theorem messageNext_alongside (ends : List Token.Kind) :
    Alongside R Eq (messageNext ends) (messageNext ends) := by
  rintro ⟨ts, total, bound, ending, reports⟩ ⟨ts', total', bound', ending', reports'⟩ hs
  have rest : List.Forall₂ (Token.Like R) ts ts' := hs.rest
  cases rest with
  | nil => exact .ok rfl hs
  | cons first rest =>
    cases rest with
    | nil => exact .ok rfl hs
    | cons second rest => exact .ok (by rw [first.kind, second.kind]) hs

theorem clauseItems_alongside (ends : List Token.Kind) {condition : ParseM Expr}
    (h : Alongside R (Expr.Like R) condition condition) (rounds : Nat) :
    Alongside R (fun r r' : List Expr × Option Token =>
        List.Forall₂ (Expr.Like R) r.1 r'.1 ∧ Option.Rel (Token.Like R) r.2 r'.2)
      (clauseItems ends condition rounds) (clauseItems ends condition rounds) := by
  induction rounds with
  | zero => exact .pure ⟨.nil, .none⟩
  | succ rounds ih =>
    rw [clauseItems]
    refine (messageNext_alongside ends).bindSame fun _ => .ite _ ?_ ?_
    · exact (Alongside.accept _).bind fun _ _ message => .pure ⟨.nil, message⟩
    · refine h.bind fun _ _ first => (Alongside.accepted _).bindSame fun _ => .ite _ ?_ ?_
      · exact ih.bind fun _ _ more => .pure ⟨.cons first more.1, more.2⟩
      · exact .pure ⟨.cons first .nil, .none⟩

theorem content_map_eq {t t' : Option Token} (h : Option.Rel (Token.Like R) t t') :
    t.map Token.content = t'.map Token.content := by
  cases h with
  | none => rfl
  | some same => exact congrArg some same.content

/-- Clauses are never left out by the parser, so what they are alike in is only places. -/
theorem clauses_alongside (ends : List Token.Kind) (depth : Nat) :
    Alongside R (fun c c' : Clauses => List.Forall₂ (Expr.Like R) c.conditions c'.conditions ∧
      c.message = c'.message) (clauses ends depth) (clauses ends depth) := by
  cases depth with
  | zero => exact .outOfLevels
  | succ depth =>
    rw [clauses]
    refine Alongside.total.bindSame fun m =>
      (clauseItems_alongside ends (expressionsAlongside depth).expression (m + 1)).bind ?_
    rintro ⟨conditions, message⟩ ⟨conditions', message'⟩ ⟨hconditions, hmessage⟩
    have found : Alongside R (fun c c' : Clauses =>
        List.Forall₂ (Expr.Like R) c.conditions c'.conditions ∧ c.message = c'.message)
        (pure ⟨conditions, message.map Token.content⟩)
        (pure ⟨conditions', message'.map Token.content⟩) :=
      .pure ⟨hconditions, content_map_eq hmessage⟩
    cases hconditions with
    | cons _ _ => exact found
    | nil =>
      cases hmessage with
      | none => exact found
      | some same => exact (Alongside.complainAt same _).bindSame fun _ _ _ hs => .error hs

theorem functionClauses_alongside (mode : Mode) (kind : Token.Kind) (word : String)
    (ends : List Token.Kind) (depth : Nat) : Alongside R (Clauses.Like R mode)
      (functionClauses kind word ends depth) (functionClauses kind word ends depth) := by
  refine (Alongside.accepted _).bindSame fun _ => .ite _ ?_ (.pure (.same .nil))
  refine (Alongside.expect _ _).bind fun _ _ _ => ?_
  intro s s' hs
  have found := clauses_alongside ends depth s s' hs
  generalize clauses ends depth s = r at found
  generalize clauses ends depth s' = r' at found
  cases found with
  | error state => exact .error state
  | @ok c c' _ _ result state =>
    obtain ⟨conditions, message⟩ := c
    obtain ⟨conditions', message'⟩ := c'
    obtain ⟨same, rfl⟩ := result
    exact .ok (.same same) state

/-! ## Statements -/

section Simple

variable (mode : Mode)

theorem varDeclaration_alongside (depth : Nat) :
    Alongside R (Stmt.Like R mode) (varDeclaration depth) (varDeclaration depth) := by
  cases depth with
  | zero => exact .outOfLevels
  | succ depth =>
    rw [varDeclaration]
    exact (Alongside.expect _ _).bind fun _ _ name =>
      (Alongside.following (expressionsAlongside depth).expression).bind fun _ _ value =>
      (Alongside.expect _ _).bind fun _ _ _ => .pure (.var name.lexeme value)

theorem expressionStatement_alongside (depth : Nat) :
    Alongside R (Stmt.Like R mode) (expressionStatement depth) (expressionStatement depth) := by
  cases depth with
  | zero => exact .outOfLevels
  | succ depth =>
    rw [expressionStatement]
    exact (expressionsAlongside depth).expression.bind fun _ _ value =>
      (Alongside.expect _ _).bind fun _ _ _ => .pure (.expression value)

theorem printStatement_alongside (depth : Nat) :
    Alongside R (Stmt.Like R mode) (printStatement depth) (printStatement depth) := by
  cases depth with
  | zero => exact .outOfLevels
  | succ depth =>
    rw [printStatement]
    exact (expressionsAlongside depth).expression.bind fun _ _ value =>
      (Alongside.expect _ _).bind fun _ _ _ => .pure (.print value)

theorem leaveStatement_alongside (context : Context) {t t' : Token} (h : t.Like R t') :
    Alongside R (Stmt.Like R mode) (leaveStatement context t) (leaveStatement context t') :=
  (Alongside.expect _ _).bind fun _ _ _ => (Alongside.complainUnless _ h _).bindSame fun _ =>
    .pure (.leave h.place)

theorem yieldStatement_alongside (context : Context) {t t' : Token} (h : t.Like R t')
    (depth : Nat) : Alongside R (Stmt.Like R mode) (yieldStatement context t depth)
      (yieldStatement context t' depth) := by
  cases depth with
  | zero => exact .outOfLevels
  | succ depth =>
    rw [yieldStatement, yieldStatement]
    exact (Alongside.complainUnless _ h _).bindSame fun _ =>
      (Alongside.itemUnless (expressionsAlongside depth).expression).bind fun _ _ value =>
      (Alongside.expect _ _).bind fun _ _ _ => .pure (.yield h.place value)

theorem contractStatement_alongside (kind : ContractKind) {p p' : Place} (place : R p p')
    (depth : Nat) : Alongside R (Stmt.Like R mode) (contractStatement kind p depth)
      (contractStatement kind p' depth) := by
  cases depth with
  | zero => exact .outOfLevels
  | succ depth =>
    rw [contractStatement, contractStatement]
    refine (Alongside.expect _ _).bind fun _ _ _ => (clauses_alongside _ depth).bind ?_
    rintro ⟨conditions, message⟩ ⟨conditions', message'⟩ ⟨same, rfl⟩
    exact (Alongside.expect _ _).bind fun _ _ _ => .pure (.contract place same)

theorem loadStatement_alongside :
    Alongside R (Stmt.Like R mode) loadStatement loadStatement := by
  refine (Alongside.expect _ _).bind fun path path' same =>
    (Alongside.following (Alongside.expect _ _)).bind fun space space' hspace =>
    (Alongside.expect _ _).bind fun _ _ _ => ?_
  rw [same.content]
  refine .pure (.load same.place ?_)
  cases hspace with
  | none => exact .none
  | some name => exact .some name.lexeme

theorem loopStart_alongside (depth : Nat) :
    Alongside R (Option.Rel (Stmt.Like R mode)) (loopStart depth) (loopStart depth) := by
  refine (Alongside.accepted _).bindSame fun _ => .ite _ (.pure .none) ?_
  refine (Alongside.accepted _).bindSame fun _ => .ite _ ?_ ?_
  · exact (varDeclaration_alongside mode depth).bind fun _ _ h => .pure (.some h)
  · exact (expressionStatement_alongside mode depth).bind fun _ _ h => .pure (.some h)

theorem forLoop_like {start start' : Option Stmt} {condition condition' step step' : Option Expr}
    {body body' : Stmt} (hstart : Option.Rel (Stmt.Like R mode) start start')
    (hcondition : Option.Rel (Expr.Like R) condition condition')
    (hstep : Option.Rel (Expr.Like R) step step') (hbody : body.Like R mode body') :
    (forLoop start condition step body).Like R mode (forLoop start' condition' step' body') := by
  have whole : Expr.Like R (condition.getD (.literal (.bool true)))
      (condition'.getD (.literal (.bool true))) := by
    cases hcondition with
    | none => exact .literal _
    | some h => exact h
  unfold forLoop
  cases hstart with
  | none =>
    cases hstep with
    | none => exact .loop whole hbody
    | some step => exact .loop whole (.block (.cons hbody (.cons (.expression step) .nil)))
  | some first =>
    cases hstep with
    | none => exact .block (.cons first (.cons (.loop whole hbody) .nil))
    | some step =>
      exact .block (.cons first (.cons
        (.loop whole (.block (.cons hbody (.cons (.expression step) .nil)))) .nil))

theorem signature_alongside (depth : Nat) :
    Alongside R (Signature.Like R mode) (signature depth) (signature depth) := by
  refine (Alongside.expect _ _).bind fun _ _ name => (Alongside.expect _ _).bind fun _ _ _ =>
    (Alongside.itemsUntil (Alongside.limitCount _) (Alongside.expect _ _)).bind
      fun parameters parameters' hparameters => (Alongside.expect _ _).bind fun _ _ _ =>
    (functionClauses_alongside mode _ _ _ depth).bind fun _ _ before =>
    (functionClauses_alongside mode _ _ _ depth).bind fun _ _ after =>
    (Alongside.expect _ _).bind fun _ _ _ => .pure ⟨name.lexeme, ?_, before, after⟩
  rw [List.forall₂_map_left_iff, List.forall₂_map_right_iff]
  exact hparameters.imp fun _ _ same => same.lexeme

theorem toList_append_like {found found' : Option Stmt} {body body' : List Stmt}
    (h : Option.Rel (Stmt.Like R mode) found found') (hbody : List.Forall₂ (Stmt.Like R mode) body body') :
    List.Forall₂ (Stmt.Like R mode) (found.toList ++ body) (found'.toList ++ body') := by
  cases h with
  | none => exact hbody
  | some same => exact .cons same hbody

theorem statementsUntilBrace_alongside {x y : ParseM (Option Stmt)}
    (h : Alongside R (Option.Rel (Stmt.Like R mode)) x y) (rounds : Nat) :
    Alongside R (List.Forall₂ (Stmt.Like R mode)) (statementsUntilBrace x rounds)
      (statementsUntilBrace y rounds) := by
  induction rounds with
  | zero => exact .pure .nil
  | succ rounds ih =>
    rw [statementsUntilBrace, statementsUntilBrace]
    refine Alongside.current?.bind fun next next' hnext => ?_
    cases hnext with
    | none => exact .pure .nil
    | some same =>
      simp only [same.kind]
      exact .ite _ (.pure .nil) (h.bind fun _ _ first => ih.bind fun _ _ rest =>
        .pure (toList_append_like mode first rest))

theorem declarations_alongside {x y : ParseM (Option Stmt)}
    (h : Alongside R (Option.Rel (Stmt.Like R mode)) x y) (rounds : Nat) :
    Alongside R (List.Forall₂ (Stmt.Like R mode)) (declarations x rounds) (declarations y rounds) := by
  induction rounds with
  | zero => exact .pure .nil
  | succ rounds ih =>
    rw [declarations, declarations]
    refine Alongside.current?.bind fun next next' hnext => ?_
    cases hnext with
    | none => exact .pure .nil
    | some _ =>
      refine h.attempting.bind fun found found' hfound => ?_
      cases hfound with
      | none => exact .pure .nil
      | some first => exact ih.bind fun _ _ rest => .pure (toList_append_like mode first rest)

end Simple

/-- The productions of statements at one number of levels. A test is part of the program only in
a context that keeps tests. -/
structure StatementsAlongside (R : Place → Place → Prop) (mode : Mode) (depth : Nat) : Prop where
  declaration : ∀ context, (context.keepTests = true → mode = .tested) →
    Alongside R (Option.Rel (Stmt.Like R mode)) (declaration context depth)
      (declaration context depth)
  function : ∀ context, (context.keepTests = true → mode = .tested) →
    Alongside R (Stmt.Like R mode) (function context depth) (function context depth)
  testStatement : ∀ context, (context.keepTests = true → mode = .tested) →
    Alongside R (fun s s' => mode = .tested → s.Like R mode s') (testStatement context depth)
      (testStatement context depth)
  statement : ∀ context, (context.keepTests = true → mode = .tested) →
    Alongside R (Stmt.Like R mode) (statement context depth) (statement context depth)
  block : ∀ context, (context.keepTests = true → mode = .tested) →
    Alongside R (List.Forall₂ (Stmt.Like R mode)) (block context depth) (block context depth)
  branch : ∀ context, (context.keepTests = true → mode = .tested) →
    Alongside R (Stmt.Like R mode) (branch context depth) (branch context depth)
  loopBody : ∀ context, (context.keepTests = true → mode = .tested) →
    Alongside R (Stmt.Like R mode) (loopBody context depth) (loopBody context depth)
  whileLoop : ∀ context, (context.keepTests = true → mode = .tested) →
    Alongside R (Stmt.Like R mode) (whileLoop context depth) (whileLoop context depth)
  forStatement : ∀ context, (context.keepTests = true → mode = .tested) →
    Alongside R (Stmt.Like R mode) (forStatement context depth) (forStatement context depth)

section StatementLevel

variable {mode : Mode} {depth : Nat} (ih : StatementsAlongside R mode depth) (context : Context)
  (keeps : context.keepTests = true → mode = .tested)
include ih keeps

theorem block_alongside : Alongside R (List.Forall₂ (Stmt.Like R mode))
    (block context (depth + 1)) (block context (depth + 1)) := by
  rw [block]
  exact Alongside.total.bindSame fun m =>
    (statementsUntilBrace_alongside mode (ih.declaration context keeps) m).bind fun _ _ body =>
    (Alongside.expect _ _).bind fun _ _ _ => .pure body

theorem function_alongside : Alongside R (Stmt.Like R mode)
    (function context (depth + 1)) (function context (depth + 1)) := by
  rw [function]
  exact (signature_alongside mode depth).bind fun _ _ signature =>
    (ih.block { context with inLoop := false, inFunction := true } keeps).bind fun _ _ body =>
    .pure (.function signature body)

theorem testStatement_alongside : Alongside R (fun s s' => mode = .tested → s.Like R mode s')
    (testStatement context (depth + 1)) (testStatement context (depth + 1)) := by
  rw [testStatement]
  refine (Alongside.expect _ _).bind fun name name' same =>
    (ih.statement { context with inLoop := false, inFunction := false } keeps).bind
      fun _ _ body => ?_
  rw [same.content]
  exact .pure fun tested => .test tested same.place body

theorem branch_alongside : Alongside R (Stmt.Like R mode)
    (branch context (depth + 1)) (branch context (depth + 1)) := by
  rw [branch]
  exact (Alongside.expect _ _).bind fun _ _ _ =>
    (expressionsAlongside depth).expression.bind fun _ _ condition =>
    (Alongside.expect _ _).bind fun _ _ _ =>
    (ih.statement context keeps).bind fun _ _ whenTrue =>
    (Alongside.following (ih.statement context keeps)).bind fun _ _ whenFalse =>
    .pure (.branch condition whenTrue whenFalse)

theorem whileLoop_alongside : Alongside R (Stmt.Like R mode)
    (whileLoop context (depth + 1)) (whileLoop context (depth + 1)) := by
  rw [whileLoop]
  exact (Alongside.expect _ _).bind fun _ _ _ =>
    (expressionsAlongside depth).expression.bind fun _ _ condition =>
    (Alongside.expect _ _).bind fun _ _ _ =>
    (ih.loopBody context keeps).bind fun _ _ body => .pure (.loop condition body)

theorem forStatement_alongside : Alongside R (Stmt.Like R mode)
    (forStatement context (depth + 1)) (forStatement context (depth + 1)) := by
  have item : ∀ close, Alongside R (Option.Rel (Expr.Like R))
      (itemUnless close (expression depth)) (itemUnless close (expression depth)) :=
    fun _ => Alongside.itemUnless (expressionsAlongside depth).expression
  rw [forStatement]
  exact (Alongside.expect _ _).bind fun _ _ _ =>
    (loopStart_alongside mode depth).bind fun _ _ start =>
    (item .semicolon).bind fun _ _ condition => (Alongside.expect _ _).bind fun _ _ _ =>
    (item .rightParen).bind fun _ _ step => (Alongside.expect _ _).bind fun _ _ _ =>
    (ih.loopBody context keeps).bind fun _ _ body =>
    .pure (forLoop_like mode start condition step body)

theorem statement_alongside : Alongside R (Stmt.Like R mode)
    (statement context (depth + 1)) (statement context (depth + 1)) := by
  rw [statement]
  refine (Alongside.accepted _).bindSame fun _ => .ite _ (printStatement_alongside mode depth) ?_
  refine (Alongside.accepted _).bindSame fun _ => .ite _ ?block ?_
  case block => exact (ih.block context keeps).bind fun _ _ body => .pure (.block body)
  refine (Alongside.accepted _).bindSame fun _ => .ite _ (ih.branch context keeps) ?_
  refine (Alongside.accepted _).bindSame fun _ => .ite _ (ih.whileLoop context keeps) ?_
  refine (Alongside.accepted _).bindSame fun _ => .ite _ (ih.forStatement context keeps) ?_
  -- the keyword is taken on both sides or on neither
  refine (Alongside.accept _).bind fun _ _ leaving => ?_
  cases leaving with
  | some same => exact leaveStatement_alongside mode context same
  | none =>
    refine (Alongside.accept _).bind fun _ _ yielding => ?_
    cases yielding with
    | some same => exact yieldStatement_alongside mode context same depth
    | none =>
      refine (Alongside.accept _).bind fun _ _ asserting => ?_
      cases asserting with
      | some same => exact contractStatement_alongside mode .assertion same.place depth
      | none =>
        refine (Alongside.accept _).bind fun _ _ checking => ?_
        cases checking with
        | some same => exact contractStatement_alongside mode .check same.place depth
        | none =>
          exact (Alongside.accepted _).bindSame fun _ => .ite _ (loadStatement_alongside mode)
            (expressionStatement_alongside mode depth)

theorem declaration_alongside : Alongside R (Option.Rel (Stmt.Like R mode))
    (declaration context (depth + 1)) (declaration context (depth + 1)) := by
  rw [declaration]
  refine Alongside.recovering ?_ .none
  refine (Alongside.accepted _).bindSame fun _ => .ite _ ?var ?_
  case var => exact (varDeclaration_alongside mode depth).bind fun _ _ h => .pure (.some h)
  refine (Alongside.accepted _).bindSame fun _ => .ite _ ?function ?_
  case function => exact (ih.function context keeps).bind fun _ _ h => .pure (.some h)
  refine (Alongside.accepted _).bindSame fun _ => .ite _ ?test ?_
  case test =>
    refine (ih.testStatement context keeps).bind fun _ _ h => .pure ?_
    split
    · rename_i kept
      exact .some (h (keeps kept))
    · exact .none
  exact (ih.statement context keeps).bind fun _ _ h => .pure (.some h)

end StatementLevel

theorem statementsAlongside (mode : Mode) (depth : Nat) : StatementsAlongside R mode depth := by
  induction depth with
  | zero =>
    exact ⟨fun _ _ => .outOfLevels, fun _ _ => .outOfLevels, fun _ _ => .outOfLevels,
      fun _ _ => .outOfLevels, fun _ _ => .outOfLevels, fun _ _ => .outOfLevels,
      fun _ _ => .outOfLevels, fun _ _ => .outOfLevels, fun _ _ => .outOfLevels⟩
  | succ depth ih =>
    exact
      { declaration := declaration_alongside ih
        function := function_alongside ih
        testStatement := testStatement_alongside ih
        statement := statement_alongside ih
        block := block_alongside ih
        branch := branch_alongside ih
        loopBody := fun context keeps => by
          rw [loopBody]
          exact ih.statement { context with inLoop := true } keeps
        whileLoop := whileLoop_alongside ih
        forStatement := forStatement_alongside ih }

end Parser

/-! ## Programs -/

/-- Token lists that differ only in places. -/
structure TokenList.Like (R : Place → Place → Prop) (ts ts' : TokenList) : Prop where
  tokens : List.Forall₂ (Token.Like R) ts.tokens ts'.tokens
  ending : R ts.ending ts'.ending

/-- From tokens that differ only in places come programs that differ only in places, and the same
complaints in the same order. -/
theorem Program.parse_like {mode : Mode} {keepTests : Bool}
    (keeps : keepTests = true → mode = .tested) {input input' : TokenList}
    (h : input.Like R input') :
    List.Forall₂ (Stmt.Like R mode) (Program.parse keepTests input).1
      (Program.parse keepTests input').1 ∧
    List.Forall₂ (Diagnostic.Like R) (Program.parse keepTests input).2
      (Program.parse keepTests input').2 := by
  have start : (Parser.State.start input).Like R (Parser.State.start input') :=
    ⟨h.tokens, h.tokens.length_eq, h.ending, .nil⟩
  have along := Parser.declarations_alongside mode
    ((Parser.statementsAlongside mode Parser.nesting).declaration (Parser.Context.top keepTests) keeps)
    input.tokens.length _ _ start
  unfold Program.parse
  simp only [← h.tokens.length_eq]
  generalize Parser.declarations _ _ (Parser.State.start input) = r at along
  generalize Parser.declarations _ _ (Parser.State.start input') = r' at along
  cases along with
  | ok program state => exact ⟨program, List.forall₂_reverse_iff.mpr state.reports⟩
  | error state => exact ⟨.nil, List.forall₂_reverse_iff.mpr state.reports⟩

end ContractScript
