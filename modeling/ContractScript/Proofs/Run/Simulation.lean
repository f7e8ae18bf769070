/-
Programs that are alike run alike.

If two programs differ only in places, or in contracts that the second one leaves out, the
run of the second follows the run of the first, from any two states that are alike. The
proof goes through evaluation once, in step with its definition: at each number of levels
the five parts of evaluation follow each other if they do with one level less.

Contracts that are left out are the only point where the two runs do not go in step. Their
conditions make lists and maps at most, and nothing refers to these afterwards; the empty
block in place of an assertion makes a scope that nothing refers to either.
-/
import ContractScript.Proofs.Run.Following
import ContractScript.Proofs.Run.Purity
import ContractScript.Proofs.Run.TestResults

set_option autoImplicit false

namespace ContractScript

open EvalM

variable {T : Terms} {ρ : Renaming}

/-! ## What only one side makes -/

section Spare

variable {m m' : Machine}

/-- Lists and maps that only the first side has made. -/
theorem Machine.Like.extended (h : m.Like T ρ m') (free : T.exact = false) {m₁ : Machine}
    (more : m.Extends m₁) : m₁.Like T ρ m' := by
  have store : Store.Like T ρ
      ⟨m₁.store.lists, m₁.store.maps, m.store.functions, m.store.scopes⟩ m'.store :=
    { lists := h.store.lists.grow free more.lists fun _ _ => rfl
      maps := h.store.maps.grow free more.maps fun _ _ => rfl
      functions := h.store.functions
      scopes := h.store.scopes }
  rw [more.rest]
  exact { h with store := store }

/-- A scope that only the second side has made. -/
theorem Machine.Like.spareScope (h : m.Like T ρ m') (free : T.exact = false)
    (enclosing : Option ScopeId) :
    Machine.Like T ρ m { m' with store := (m'.store.newScope enclosing).2 } := by
  have scopes : Matched T.exact ρ.scopes (Scope.Like ρ) m.store.scopes
      (m'.store.newScope enclosing).2.scopes := by
    refine h.store.scopes.grow free (fun _ _ => rfl) fun j low => ?_
    show (m'.store.scopes.push _)[j]? = _
    rw [Array.getElem?_push, if_neg (Nat.ne_of_lt low)]
  exact { h with store := { h.store with scopes := scopes } }

end Spare

/-- What a call yields after signals that are alike. -/
theorem Signal.Like.result {signal signal' : Signal} (h : signal.Like ρ signal') :
    signal.result.Like ρ signal'.result := by
  cases h with
  | next => exact .nil
  | leave => exact .nil
  | yield value => exact value

/-- Clauses that are alike fail with the same message. -/
theorem Clauses.Like.message {R : Place → Place → Prop} {mode : Mode} {c c' : Clauses}
    (h : c.Like R mode c') : c.message = c'.message := by
  cases h <;> rfl

/-- Values that are alike can be called in the same way. -/
theorem Store.Like.callable? {s s' : Store} (h : s.Like T ρ s') {v v' : Value} (value : v.Like ρ v') :
    s.callable? v = s'.callable? v' := by
  cases value with
  | function same =>
    obtain ⟨c, c', found, found', like⟩ := h.closure? same
    simp only [Store.callable?, found, found', Option.map_some, like.signature.name.text,
      like.signature.parameters.length_eq]
  | _ => rfl

namespace EvalM.Follows

/-! ## Parts of evaluation -/

/-- A step may be looked at in the states that it starts in. -/
theorem fromState {α α' : Type} {Q : Renaming → α → α' → Prop} {x : EvalM α} {y : EvalM α'}
    (h : ∀ m m', Machine.Like T ρ m m' → Follows T ρ Q x y) : Follows T ρ Q x y :=
  fun m m' like => h m m' like m m' like

theorem lookup {l l' : Lexeme} (name : l.Like T.place l') :
    Follows T ρ Value.Like (EvalM.lookup l) (EvalM.lookup l') := by
  refine bind get fun _ m m' _ like => ?_
  have found := like.store.value? like.scope l.text
  rw [← name.text]
  generalize m.store.value? m.scope l.text = r, m'.store.value? m'.scope l.text = r' at found ⊢
  cases found with
  | none => exact failAt name _
  | some value => exact pure value

theorem lookupQualified {ls ls' : List Lexeme} (spaces : List.Forall₂ (Lexeme.Like T.place) ls ls')
    {l l' : Lexeme} (name : l.Like T.place l') :
    Follows T ρ Value.Like (EvalM.lookupQualified ls l) (EvalM.lookupQualified ls' l') := by
  refine bind get fun _ m m' _ like => ?_
  unfold Store.qualifiedValue
  rcases like.store.spaceOf spaces like.scope with
    ⟨missing, missing', none, none', same⟩ | ⟨target, target', some, some', same⟩
  · rw [none, none']
    dsimp only
    rw [← same.text]
    exact failAt same _
  · rw [some, some']
    dsimp only
    have found := like.store.value? same l.text
    rw [← name.text]
    generalize m.store.value? target l.text = r, m'.store.value? target' l.text = r' at found ⊢
    cases found with
    | none => exact failAt name _
    | some value => exact pure value

theorem assign {l l' : Lexeme} (name : l.Like T.place l') {v v' : Value} (value : v.Like ρ v') :
    Follows T ρ Whatever (EvalM.assign l v) (EvalM.assign l' v') := by
  refine bind get fun _ m m' grown like => ?_
  have found := like.store.owner? like.scope l.text
  rw [← name.text]
  generalize m.store.owner? m.scope l.text = r, m'.store.owner? m'.scope l.text = r' at found ⊢
  cases found with
  | none => exact failAt name _
  | some owner => exact define owner _ (value.mono grown)

theorem iterate {condition condition' : EvalM Bool} {body body' : EvalM Signal}
    (hcondition : ∀ σ, Follows T σ Same condition condition')
    (hbody : ∀ σ, Follows T σ Signal.Like body body') (rounds : Nat) :
    ∀ ρ, Follows T ρ Signal.Like (EvalM.iterate condition body rounds)
      (EvalM.iterate condition' body' rounds) := by
  induction rounds with
  | zero => exact fun _ => unfinished
  | succ rounds ih =>
    refine fun ρ => bind (hcondition ρ) fun σ holds holds' _ (same : holds = holds') => ?_
    subst same
    split
    · refine bind (hbody σ) fun τ signal signal' _ like => ?_
      cases like with
      | next => exact ih τ
      | leave => exact pure .next
      | yield value => exact pure (.yield value)
    · exact pure .next

theorem sequence {run run' : Stmt → EvalM Signal}
    (h : ∀ σ s s', Stmt.Like T.place T.mode s s' → Follows T σ Signal.Like (run s) (run' s'))
    {ss ss' : List Stmt} (body : List.Forall₂ (Stmt.Like T.place T.mode) ss ss') :
    ∀ ρ, Follows T ρ Signal.Like (EvalM.sequence run ss) (EvalM.sequence run' ss') := by
  induction body with
  | nil => exact fun _ => pure .next
  | cons first _ ih =>
    refine fun ρ => bind (h ρ _ _ first) fun σ signal signal' _ like => ?_
    cases like with
    | next => exact ih σ
    | leave => exact pure .leave
    | yield value => exact pure (.yield value)

section Values

variable {value value' : Expr → EvalM Value}
  (h : ∀ σ e e', Expr.Like T.place e e' → Follows T σ Value.Like (value e) (value' e'))
include h

theorem allHold {es es' : List Expr} (conditions : List.Forall₂ (Expr.Like T.place) es es') :
    ∀ ρ, Follows T ρ Same (EvalM.allHold value es) (EvalM.allHold value' es') := by
  induction conditions with
  | nil => exact fun _ => pure rfl
  | cons first _ ih =>
    refine fun ρ => bind (h ρ _ _ first) fun σ v v' _ like => ?_
    rw [like.isTruthy]
    split
    · exact ih σ
    · exact pure rfl

theorem values {es es' : List Expr} (items : List.Forall₂ (Expr.Like T.place) es es') :
    ∀ ρ, Follows T ρ (fun σ => List.Forall₂ (Value.Like σ)) (EvalM.values value es)
      (EvalM.values value' es') := by
  induction items with
  | nil => exact fun _ => pure .nil
  | cons first _ ih =>
    exact fun ρ => bind (h ρ _ _ first) fun σ v v' _ like => bind (ih σ) fun _ _ _ more rest =>
      pure (.cons (like.mono more) rest)

theorem entries (depth : Nat) {ps ps' : List (Expr × Expr)}
    (pairs : List.Forall₂ (PairLike (Expr.Like T.place) (Expr.Like T.place)) ps ps') :
    ∀ ρ (c c' : OrderedMap Key Entry), c.Like (Key.Like ρ) (Entry.Like ρ) c' →
      Follows T ρ (fun σ => OrderedMap.Like (Key.Like σ) (Entry.Like σ))
        (EvalM.entries depth value c ps) (EvalM.entries depth value' c' ps') := by
  induction pairs with
  | nil => exact fun _ _ _ content => pure content
  | cons first _ ih =>
    intro ρ c c' content
    obtain ⟨firstKey, firstValue⟩ := first
    refine bind (h ρ _ _ firstKey) fun σ k k' grown shownKey =>
      bind (h σ _ _ firstValue) fun τ v v' more item =>
      bind (keyOf depth (shownKey.mono more)) fun υ l l' last key => fromState fun m m' like => ?_
    -- the content was alike before its key and its value were made
    have all := Renaming.le_trans grown (Renaming.le_trans more last)
    refine ih υ _ _ (OrderedMap.Like.insert like.store.agrees ?_ key
      ⟨shownKey.mono (Renaming.le_trans more last), item.mono last⟩)
    exact content.mono (fun _ _ key => key.mono all) fun _ _ entry => entry.mono all

end Values

theorem bindArguments {ls ls' : List Lexeme} (parameters : List.Forall₂ (Lexeme.Like T.place) ls ls') :
    ∀ {ρ : Renaming} {id id' : ScopeId} {vs vs' : List Value}, ρ.scopes id id' →
      List.Forall₂ (Value.Like ρ) vs vs' →
      Follows T ρ Whatever (EvalM.bind id ls vs) (EvalM.bind id' ls' vs') := by
  induction parameters with
  | nil =>
    intro ρ id id' vs vs' _ arguments
    cases arguments <;> exact pure trivial
  | cons name _ ih =>
    intro ρ id id' vs vs' same arguments
    cases arguments with
    | nil => exact pure trivial
    | cons first rest =>
      unfold EvalM.bind
      rw [name.text]
      exact bind (define same _ first) fun σ _ _ grown _ =>
        ih (grown.scopes _ _ same) (rest.imp fun _ _ value => value.mono grown)

/-- A module has the same declarations on both sides, and no tests. -/
theorem moduleDeclarations {l l' : Lexeme} (path : l.Like T.place l') (pathText : String)
    (source : ModuleSource) :
    Follows T ρ (fun _ => List.Forall₂ (Stmt.Like T.place T.mode))
      (EvalM.moduleDeclarations l pathText source) (EvalM.moduleDeclarations l' pathText source) := by
  unfold EvalM.moduleDeclarations
  dsimp only
  split
  · -- tests are dropped when a module is read
    refine pure (Stmt.Like.reflAll _ fun _ => (Stmt.allTestFree_iff _).mpr fun s member => ?_)
    have free := Program.testFree_of_ofSource (some source.name) source.source
    exact (Stmt.allTestFree_iff _).mp free s (List.mem_filter.mp member).1
  · exact failAt path _

theorem findModule (setup : Setup) {l l' : Lexeme} (path : l.Like T.place l') (pathText : String) :
    Follows T ρ Same (EvalM.findModule setup l pathText) (EvalM.findModule setup l' pathText) := by
  refine bind get fun _ m m' _ like => ?_
  have noted (name : String) : m.importing.contains name = m'.importing.contains name := by
    rw [Bool.eq_iff_iff, List.contains_iff_mem, List.contains_iff_mem, like.importing]
  rw [like.host, like.directory]
  simp only [noted]
  split
  · exact failAt path _
  · exact defect _
  · exact defect _
  · exact failAt path _
  · split
    · exact failAt path _
    · exact pure rfl

theorem importTarget (setup : Setup) {l l' : Option Lexeme}
    (space : Option.Rel (Lexeme.Like T.place) l l') :
    Follows T ρ (fun σ id id' => σ.scopes id id') (EvalM.importTarget setup l)
      (EvalM.importTarget setup l') := by
  cases space with
  | none => exact bind get fun _ _ _ _ like => pure like.scope
  | some name =>
    refine bind (newRoot setup) fun σ id id' _ same =>
      bind (modify fun m m' like => ?_) fun _ _ _ grown _ => pure (grown.scopes _ _ same)
    rw [name.text]
    exact like.withStore (Renaming.le_refl σ) (like.store.defineSpace like.scope _ same)

theorem enterDirectory (directory : Option String) :
    Follows T ρ Whatever (EvalM.enterDirectory directory) (EvalM.enterDirectory directory) := by
  cases directory with
  | none => exact pure trivial
  | some dir => exact modify fun _ _ like => { like with directory := rfl }

end EvalM.Follows

/-! ## Evaluation -/

/-- The parts of evaluation at one number of levels follow each other. -/
structure EvaluationFollows (T : Terms) (setup : Setup) (depth : Nat) : Prop where
  evaluate : ∀ ρ e e', Expr.Like T.place e e' →
    Follows T ρ Value.Like (evaluate setup depth e) (evaluate setup depth e')
  callValue : ∀ ρ p p' f f' vs vs', T.place p p' → Value.Like ρ f f' →
    List.Forall₂ (Value.Like ρ) vs vs' →
    Follows T ρ Value.Like (callValue setup depth p f vs) (callValue setup depth p' f' vs')
  invoke : ∀ ρ f f' vs vs', Value.Like ρ f f' → List.Forall₂ (Value.Like ρ) vs vs' →
    Follows T ρ Value.Like (invoke setup depth f vs) (invoke setup depth f' vs')
  execute : ∀ ρ s s', Stmt.Like T.place T.mode s s' →
    Follows T ρ Signal.Like (execute setup depth s) (execute setup depth s')
  importModule : ∀ ρ path p p' l l', T.place p p' → Option.Rel (Lexeme.Like T.place) l l' →
    Follows T ρ Whatever (importModule setup depth path p l) (importModule setup depth path p' l')

section Level

variable {setup : Setup} {depth : Nat} (ih : EvaluationFollows T setup depth)
include ih

theorem evaluate_follows {e e' : Expr} (like : e.Like T.place e') :
    Follows T ρ Value.Like (evaluate setup (depth + 1) e) (evaluate setup (depth + 1) e') := by
  cases like with
  | literal value => exact .pure (Literal.like_value ρ value)
  | group inner => exact ih.evaluate ρ _ _ inner
  | «variable» name => exact .lookup name
  | qualified spaces name => exact .lookupQualified spaces name
  -- what has been evaluated stays alike when more is matched
  | assign name value =>
    exact .bind (ih.evaluate ρ _ _ value) fun σ _ _ _ like => .bind (.assign name like) fun _ _ _ grown _ =>
      .pure (like.mono grown)
  | unary place operand =>
    exact .bind (ih.evaluate ρ _ _ operand) fun _ _ _ _ like => .unaryOp _ place like
  | binary place left right =>
    exact .bind (ih.evaluate ρ _ _ left) fun σ _ _ _ a => .bind (ih.evaluate σ _ _ right)
      fun _ _ _ more b => .binaryOp _ depth place (a.mono more) b
  | @logical op _ _ _ _ _ _ place left right =>
    refine .bind (ih.evaluate ρ _ _ left) fun σ a a' _ like => ?_
    cases op with
    | or =>
      dsimp only
      rw [like.isTruthy]
      split
      · exact .pure like
      · exact ih.evaluate σ _ _ right
    | and =>
      dsimp only
      rw [like.isTruthy]
      split
      · exact ih.evaluate σ _ _ right
      · exact .pure like
  | choice condition whenTrue whenFalse =>
    refine .bind (ih.evaluate ρ _ _ condition) fun σ _ _ _ like => ?_
    rw [like.isTruthy]
    split
    · exact ih.evaluate σ _ _ whenTrue
    · exact ih.evaluate σ _ _ whenFalse
  | call callee close arguments =>
    exact .bind (ih.evaluate ρ _ _ callee) fun σ _ _ _ f => .bind (.values ih.evaluate arguments σ)
      fun τ _ _ more vs => ih.callValue τ _ _ _ _ _ _ close (f.mono more) vs
  | list items =>
    exact .bind (.values ih.evaluate items ρ) fun _ _ _ _ vs => .newList vs
  | map pairs =>
    exact .bind (.entries ih.evaluate depth pairs ρ _ _ OrderedMap.like_empty) fun _ _ _ _ content =>
      .bind (.newMap content) fun _ _ _ _ same => .pure (.map same)
  | index collection bracket key =>
    exact .bind (ih.evaluate ρ _ _ collection) fun σ _ _ _ c => .bind (ih.evaluate σ _ _ key)
      fun _ _ _ more k => .indexValue depth bracket (c.mono more) k
  | slice collection bracket first last =>
    exact .bind (ih.evaluate ρ _ _ collection) fun σ _ _ _ c => .bind (ih.evaluate σ _ _ first)
      fun τ _ _ more low => .bind (ih.evaluate τ _ _ last) fun _ _ _ most high =>
      .sliceValue bracket (c.mono (Renaming.le_trans more most)) (low.mono most) high

theorem callValue_follows {p p' : Place} (place : T.place p p') {f f' : Value} (callee : f.Like ρ f')
    {vs vs' : List Value} (arguments : List.Forall₂ (Value.Like ρ) vs vs') :
    Follows T ρ Value.Like (callValue setup (depth + 1) p f vs)
      (callValue setup (depth + 1) p' f' vs') := by
  rw [callValue_succ, callValue_succ]
  refine .bind .get fun σ m m' grown like => ?_
  have close : (closeLexeme p).Like T.place (closeLexeme p') := ⟨rfl, place⟩
  rw [like.store.callable? (callee.mono grown), arguments.length_eq]
  split
  · exact .failAt close _
  · split
    · exact .failAt close _
    · rename_i name _ _ _
      have frame : Frame.Like T.place ⟨name, p⟩ ⟨name, p'⟩ := ⟨rfl, place⟩
      exact .inCall frame close (ih.invoke σ _ _ _ _ (callee.mono grown)
        (arguments.imp fun _ _ value => value.mono grown))

/-- Conditions that are left out make lists and maps at most. -/
theorem clauses_follow {c c' : Clauses} (clauses : c.Like T.place T.mode c') :
    Follows T ρ (Granted T) (allHold (evaluate setup depth) c.conditions)
      (allHold (evaluate setup depth) c'.conditions) := by
  cases clauses with
  | same conditions => exact (Follows.allHold ih.evaluate conditions ρ).mono fun _ _ _ _ same => .inl same
  | @emptied es _ allowed free =>
    -- the second side has no conditions and stays where it is
    intro m m' like
    have grown := allHold_additive setup depth free m m (.refl m)
    cases run : allHold (evaluate setup depth) es m with
    | ok holds m₁ =>
      rw [run] at grown
      exact .ok (Renaming.le_refl ρ) (like.extended (T.renames allowed) grown.1) (.inr ⟨allowed, rfl⟩)
    | error e m₁ => exact .given allowed

theorem invoke_follows {f f' : Value} (callee : f.Like ρ f') {vs vs' : List Value}
    (arguments : List.Forall₂ (Value.Like ρ) vs vs') :
    Follows T ρ Value.Like (invoke setup (depth + 1) f vs) (invoke setup (depth + 1) f' vs') := by
  cases callee with
  | native g => exact .native setup depth g arguments
  | function same =>
    refine .bind .get fun σ m m' grown like => ?_
    obtain ⟨c, c', found, found', closure⟩ := like.store.closure? (grown.functions _ _ same)
    rw [found, found']
    -- the new scopes stand for each other from here on
    refine .bind (.newScope closure.scope) fun τ id id' more scope =>
      .bind (.bindArguments closure.signature.parameters scope
        (arguments.imp fun _ _ value => value.mono (Renaming.le_trans grown more))) fun υ _ _ up _ => ?_
    have scope := up.scopes _ _ scope
    refine .bind (.inScope scope (clauses_follow ih closure.signature.before))
      fun φ before before' on granted => ?_
    -- conditions that do not hold end the first run, and nothing is asked of the second
    rw [closure.signature.before.message]
    refine .orFail granted (.bind (.inScope (on.scopes _ _ scope) (.sequence ih.execute closure.body φ))
      fun χ signal signal' onward signals => ?_)
    have scope := onward.scopes _ _ (on.scopes _ _ scope)
    refine .bind (.define scope _ signals.result) fun ψ _ _ past _ =>
      .bind (.inScope (past.scopes _ _ scope) (clauses_follow ih closure.signature.after))
      fun ω after after' end' granted => ?_
    rw [closure.signature.after.message]
    exact .orFail granted (.pure (signals.result.mono (Renaming.le_trans past end')))
  | _ => exact .pure .nil

/-- An assertion that is left out makes lists and maps at most, and the empty block in its place a
scope. -/
theorem dropped_follows (allowed : T.mode = .erasing) (p : Place) {clauses : Clauses}
    (free : Expr.allPure clauses.conditions = true) :
    Follows T ρ Signal.Like (execute setup (depth + 1) (.contract .assertion p clauses))
      (execute setup (depth + 1) (.block [])) := by
  have held : Follows T ρ (Granted T) (allHold (evaluate setup depth) clauses.conditions) (pure true) :=
    clauses_follow ih (show clauses.Like T.place T.mode ⟨[], clauses.message⟩ from .emptied allowed free)
  refine Follows.bind (g := fun _ : Bool => execute setup (depth + 1) (.block [])) held
    fun σ holds _ _ _ => ?_
  cases holds with
  | true =>
    exact fun m m' like => .ok (Renaming.le_refl σ) (like.spareScope (T.renames allowed) _) .next
  | false => exact fun _ _ _ => .given allowed

theorem execute_follows {s s' : Stmt} (like : s.Like T.place T.mode s') :
    Follows T ρ Signal.Like (execute setup (depth + 1) s) (execute setup (depth + 1) s') := by
  cases like with
  | expression value => exact .bind (ih.evaluate ρ _ _ value) fun _ _ _ _ _ => .pure .next
  | print value =>
    refine .bind (ih.evaluate ρ _ _ value) fun _ _ _ _ like => .bind (.shown depth like)
      fun _ text text' _ (same : text = text') => ?_
    subst same
    exact .bind (.emit .output text) fun _ _ _ _ _ => .pure .next
  | @var l l' _ _ name value =>
    -- the names are the same, only their places may differ
    have bound {σ : Renaming} {v v' : Value} (like : v.Like σ v') :
        Follows T σ Signal.Like (defineHere l.text v >>= fun _ => pure .next)
          (defineHere l'.text v' >>= fun _ => pure .next) := by
      rw [name.text]
      exact .bind (.defineHere _ like) fun _ _ _ _ _ => .pure .next
    cases value with
    | none => exact .bind (Q := Value.Like) (.pure .nil) fun _ _ _ _ like => bound like
    | some value => exact .bind (ih.evaluate ρ _ _ value) fun _ _ _ _ like => bound like
  | block body =>
    exact .bind .get fun _ _ _ _ like => .bind (.newScope like.scope) fun σ _ _ _ scope =>
      .inScope scope (.sequence ih.execute body σ)
  | branch condition whenTrue whenFalse =>
    refine .bind (ih.evaluate ρ _ _ condition) fun σ _ _ _ like => ?_
    rw [like.isTruthy]
    split
    · exact ih.execute σ _ _ whenTrue
    · cases whenFalse with
      | none => exact .pure .next
      | some other => exact ih.execute σ _ _ other
  | loop condition body =>
    refine .iterate (fun σ => .bind (ih.evaluate σ _ _ condition) fun _ _ _ _ like => ?_)
      (fun σ => ih.execute σ _ _ body) _ ρ
    rw [like.isTruthy]
    exact .pure rfl
  | leave place => exact .pure .leave
  | yield place value =>
    cases value with
    | none => exact .pure (.yield .nil)
    | some value => exact .bind (ih.evaluate ρ _ _ value) fun _ _ _ _ like => .pure (.yield like)
  | function signature body =>
    refine .bind .get fun σ m m' _ like =>
      .bind (.newFunction ⟨signature, body, like.scope⟩) fun τ id id' _ same => ?_
    rw [signature.name.text]
    exact .bind (.defineHere _ (.function same)) fun _ _ _ _ _ => .pure .next
  | @contract kind _ _ _ _ message place conditions =>
    refine .bind (.allHold ih.evaluate conditions ρ) fun σ holds holds' _ (same : holds = holds') => ?_
    subst same
    split
    · exact .pure .next
    · cases kind with
      | assertion => exact .failAtPlace place _ _
      | check => exact .bind (.note (T.warning message _ _ place)) fun _ _ _ _ _ => .pure .next
  | load place space =>
    exact .bind (ih.importModule ρ _ _ _ _ _ place space) fun _ _ _ _ _ => .pure .next
  | test allowed place body =>
    exact .bind (.trace setup _) fun _ _ _ _ _ => .bind .get fun _ _ _ _ like =>
      .bind (.newScope like.scope) fun σ _ _ _ scope =>
      .bind (.asTest allowed _ place (.inScope scope (ih.execute σ _ _ body))) fun _ _ _ _ _ =>
      .pure .next
  | dropped allowed free => exact dropped_follows ih allowed _ free

theorem importModule_follows (path : String) {p p' : Place} (place : T.place p p') {l l' : Option Lexeme}
    (space : Option.Rel (Lexeme.Like T.place) l l') :
    Follows T ρ Whatever (importModule setup (depth + 1) path p l)
      (importModule setup (depth + 1) path p' l') := by
  rw [importModule_succ, importModule_succ]
  have lexeme : (pathLexeme path p).Like T.place (pathLexeme path p') := ⟨rfl, place⟩
  refine .bind (.findModule setup lexeme path) fun _ source source' _ (same : source = source') => ?_
  subst same
  exact .bind (.trace setup _) fun _ _ _ _ _ => .inImport source.name
    (.bind (.moduleDeclarations lexeme path source) fun _ _ _ _ declarations =>
      .bind (.importTarget setup space) fun _ _ _ _ target =>
      .bind (.enterDirectory source.directory) fun τ _ _ grown _ =>
      .bind (.inScope (grown.scopes _ _ target) (.sequence ih.execute declarations τ))
      fun _ _ _ _ _ => .pure trivial)

end Level

/-- Evaluation follows evaluation, at every number of levels. -/
theorem evaluationFollows (T : Terms) (setup : Setup) (depth : Nat) :
    EvaluationFollows T setup depth := by
  induction depth with
  | zero =>
    exact ⟨fun _ _ _ _ => .defect .tooDeep, fun _ _ _ _ _ _ _ _ _ _ => .defect .tooDeep,
      fun _ _ _ _ _ _ _ => .defect .tooDeep, fun _ _ _ _ => .defect .tooDeep,
      fun _ _ _ _ _ _ _ _ => .defect .tooDeep⟩
  | succ depth ih =>
    exact
      { evaluate := fun _ _ _ => evaluate_follows ih
        callValue := fun _ _ _ _ _ _ _ place callee arguments =>
          callValue_follows ih place callee arguments
        invoke := fun _ _ _ _ _ callee arguments => invoke_follows ih callee arguments
        execute := fun _ _ _ => execute_follows ih
        importModule := fun _ path _ _ _ _ place space => importModule_follows ih path place space }

/-! ## Programs -/

section Programs

variable {setup : Setup}

theorem runTop_follows {s s' : Stmt} (like : s.Like T.place T.mode s') :
    Follows T ρ Value.Like (runTop setup s) (runTop setup s') := by
  have run := evaluationFollows T setup setup.limits.depth
  -- only an expression has a value at the top
  have other : Follows T ρ Value.Like (execute setup setup.limits.depth s >>= fun _ => pure .nil)
      (execute setup setup.limits.depth s' >>= fun _ => pure .nil) :=
    .bind (run.execute ρ _ _ like) fun _ _ _ _ _ => .pure .nil
  cases like with
  | expression value =>
    refine .bind (run.evaluate ρ _ _ value) fun σ v v' _ like => ?_
    split
    · refine .bind (.shown _ like) fun _ text text' grown (same : text = text') => ?_
      subst same
      exact .bind (.emit .error text) fun _ _ _ more _ => .pure (like.mono (Renaming.le_trans grown more))
    · exact .pure like
  | _ => exact other

theorem runAll_follows {ss ss' : List Stmt} (program : List.Forall₂ (Stmt.Like T.place T.mode) ss ss') :
    ∀ {ρ : Renaming} {v v' : Value}, v.Like ρ v' →
      Follows T ρ Value.Like (runAll setup v ss) (runAll setup v' ss') := by
  induction program with
  | nil => exact fun last => .pure last
  | cons first _ ih => exact fun _ => .bind (runTop_follows first) fun _ _ _ _ value => ih value

/-- Test results that are alike are reported alike. -/
theorem reportTests_follows
    (reported : T.mode = .tested → ∀ rs rs', List.Forall₂ (TestResult.Like T.place) rs rs' →
      T.event (.effect .output (Report.ofTests setup.render rs)) (.effect .output (Report.ofTests setup.render rs'))) :
    Follows T ρ Whatever (reportTests setup) (reportTests setup) := by
  refine .bind .get fun σ m m' _ like => ?_
  have tests := like.tests
  have untested := like.untested
  generalize m.tests = rs, m'.tests = rs' at tests untested ⊢
  cases tests with
  | nil => exact .pure trivial
  | cons first rest =>
    have tested : T.mode = .tested := Decidable.byContradiction fun not => by cases untested not
    refine .bind (.note (reported tested _ _ (.cons first rest))) fun _ _ _ _ _ =>
      .modify fun _ _ like => { like with tests := .nil, untested := fun _ => rfl }

/-- Runs a program, and reports its tests if it comes to its end. -/
def runToEnd (setup : Setup) (program : Program) : EvalM Value := do
  let v ← runAll setup .nil program
  reportTests setup
  return v

theorem runToEnd_follows
    (reported : T.mode = .tested → ∀ rs rs', List.Forall₂ (TestResult.Like T.place) rs rs' →
      T.event (.effect .output (Report.ofTests setup.render rs)) (.effect .output (Report.ofTests setup.render rs')))
    {ss ss' : List Stmt} (program : List.Forall₂ (Stmt.Like T.place T.mode) ss ss') :
    Follows T ρ Value.Like (runToEnd setup ss) (runToEnd setup ss') :=
  .bind (runAll_follows program .nil) fun _ _ _ _ value =>
    .bind (reportTests_follows reported) fun _ _ _ grown _ => .pure (value.mono grown)

/-- A fault is reported on both sides, in the words for its cause. -/
theorem attempt_follows (catching : T.mode ≠ .erasing) {describe describe' : Fault → String}
    (described : ∀ f f', Fault.Like T.place f f' →
      T.event (.effect .error (describe f)) (.effect .error (describe' f')))
    {ss ss' : List Stmt} (program : List.Forall₂ (Stmt.Like T.place T.mode) ss ss') :
    Follows T ρ (Caught T Value.Like) (attempt setup describe ss) (attempt setup describe' ss') := by
  refine .bind ((runAll_follows program .nil).catchFault catching) fun σ result result' _ caught => ?_
  cases caught with
  | ok value => exact .pure (.ok value)
  | @fault f f' same =>
    dsimp only
    rw [same.cause]
    exact .bind (.trace setup _) fun _ _ _ _ _ => .bind (.note (described f f' same)) fun _ _ _ _ _ =>
      .pure (.fault same)

theorem interpret_follows (catching : T.mode ≠ .erasing) {describe describe' : Fault → String}
    (described : ∀ f f', Fault.Like T.place f f' →
      T.event (.effect .error (describe f)) (.effect .error (describe' f')))
    (reported : T.mode = .tested → ∀ rs rs', List.Forall₂ (TestResult.Like T.place) rs rs' →
      T.event (.effect .output (Report.ofTests setup.render rs)) (.effect .output (Report.ofTests setup.render rs')))
    {ss ss' : List Stmt} (program : List.Forall₂ (Stmt.Like T.place T.mode) ss ss') :
    Follows T ρ (Caught T Value.Like) (interpret setup describe ss) (interpret setup describe' ss') := by
  rw [interpret_eq, interpret_eq]
  refine .bind (attempt_follows catching described program) fun σ result result' _ caught =>
    .bind (reportTests_follows reported) fun _ _ _ grown _ => .pure ?_
  cases caught with
  | ok value => exact .ok (value.mono grown)
  | fault same => exact .fault same

end Programs

/-! ## Sessions -/

/-- Scripts that ended in the same way. -/
inductive Outcome.Like (T : Terms) (ρ : Renaming) (script script' : Report.Script) :
    Outcome → Outcome → Prop
  | success {v v' : Value} (value : v.Like ρ v') : Like T ρ script script' (.success v) (.success v')
  | malformed {ds ds' : List Diagnostic} (diagnostics : List.Forall₂ (Diagnostic.Like T.place) ds ds') :
      Like T ρ script script' (.malformed ds) (.malformed ds')
  | fault {f f' : Fault} (same : f.Like T.place f') :
      Like T ρ script script' (.fault f (Report.ofFault script f))
        (.fault f' (Report.ofFault script' f'))
  | defect (d : Defect) : Like T ρ script script' (.defect d) (.defect d)
  | unfinished : Like T ρ script script' .unfinished .unfinished

/-- No references at all. -/
def Renaming.nothing : Renaming :=
  ⟨fun _ _ => False, fun _ _ => False, fun _ _ => False, fun _ _ => False⟩

theorem matched_nothing {α : Type} {exact : Bool} {good : α → α → Prop} :
    Matched exact (fun _ _ => False) good #[] #[] :=
  ⟨fun _ _ never => never.elim, fun _ _ _ _ never => never.elim,
    fun _ => ⟨rfl, fun _ low => absurd low (Nat.not_lt_zero _)⟩⟩

theorem Store.like_empty (T : Terms) : Store.empty.Like T .nothing .empty :=
  ⟨matched_nothing, matched_nothing, matched_nothing, matched_nothing⟩

/-- What a defect leaves behind is the same on both sides. -/
theorem Machine.Like.dumped {m m' : Machine} (h : m.Like T ρ m') (traced : Bool) (d : Defect) :
    Machine.Like T ρ
      { m with events := .effect .error (Session.defectText d)
        :: (if traced then .dump :: m.events else m.events) }
      { m' with events := .effect .error (Session.defectText d)
        :: (if traced then .dump :: m'.events else m'.events) } := by
  cases traced with
  | false => exact h.withEvent (T.sameEvent _)
  | true => exact (h.withEvent (T.sameEvent .dump)).withEvent (T.sameEvent _)

namespace Session

/-- The references there are when nothing was run: the scope of the globals. -/
def references : Renaming :=
  Store.renamingScope .nothing .empty .empty

theorem references_globals : references.scopes globals globals :=
  .inr ⟨rfl, rfl⟩

/-- A state in which nothing was run is like itself. -/
theorem start_like {T : Terms} (setup : Setup) (host : Host) (none : T.earlier = [])
    (none' : T.earlier' = []) : (start setup host).Like T references (start setup host) where
  store := (Store.like_empty T).newRoot setup.natives
  scope := references_globals
  frames := .nil
  directory := rfl
  importing _ := Iff.rfl
  tests := .nil
  untested _ := rfl
  events := ⟨[], [], none.symm, none'.symm, .nil⟩
  host := rfl

theorem catchFault_eq_ok {α : Type} {step : EvalM α} {m m' : Machine} {a : α}
    (caught : catchFault step m = .ok (.ok a) m') : step m = .ok a m' := by
  unfold catchFault at caught
  cases run : step m with
  | ok b m₁ =>
    rw [run] at caught
    cases caught
    rfl
  | error e m₁ =>
    rw [run] at caught
    cases e <;> cases caught

/-- A program succeeds exactly if it comes to its end. -/
theorem runProgram_eq_success {session : Session} {script : Report.Script} {program : Program}
    {v : Value} {m : Machine} :
    session.runProgram script program = (.success v, m) ↔
      runToEnd session.setup program session.machine = .ok v m := by
  constructor
  · intro ran
    have interpreted : interpret session.setup (Report.ofFault script) program session.machine
        = .ok (.ok v) m := by
      unfold runProgram at ran
      split at ran
      all_goals cases ran
      assumption
    obtain ⟨result, m₁, caught, rest⟩ := bind_eq_ok interpreted
    cases result with
    | ok w =>
      obtain ⟨_, m₂, reported, ended⟩ := bind_eq_ok rest
      cases ended
      exact (bind_ok (catchFault_eq_ok caught)).trans (bind_ok reported)
    | error f =>
      -- a fault that was caught is still a fault
      obtain ⟨_, m₂, -, rest⟩ := bind_eq_ok rest
      obtain ⟨_, m₃, -, rest⟩ := bind_eq_ok rest
      obtain ⟨_, m₄, -, ended⟩ := bind_eq_ok rest
      cases ended
  · intro ran
    obtain ⟨w, m₁, ended, rest⟩ := bind_eq_ok ran
    obtain ⟨_, m₂, reported, same⟩ := bind_eq_ok rest
    cases same
    have caught : catchFault (runAll session.setup .nil program) session.machine = .ok (.ok v) m₁ := by
      unfold catchFault
      rw [ended]
    have interpreted : interpret session.setup (Report.ofFault script) program session.machine
        = .ok (.ok v) m :=
      (bind_ok caught).trans (bind_ok reported)
    unfold runProgram
    rw [interpreted]

/-- Programs that are alike end alike, from states that are alike. -/
theorem runProgram_like {setup : Setup} (catching : T.mode ≠ .erasing) {script script' : Report.Script}
    (described : ∀ f f', Fault.Like T.place f f' →
      T.event (.effect .error (Report.ofFault script f)) (.effect .error (Report.ofFault script' f')))
    (reported : T.mode = .tested → ∀ rs rs', List.Forall₂ (TestResult.Like T.place) rs rs' →
      T.event (.effect .output (Report.ofTests setup.render rs)) (.effect .output (Report.ofTests setup.render rs')))
    {ss ss' : List Stmt} (program : List.Forall₂ (Stmt.Like T.place T.mode) ss ss')
    {m m' : Machine} (like : m.Like T ρ m') (file file' : Option String) :
    ∃ σ, ρ ≤ σ ∧
      Outcome.Like T σ script script' (runProgram ⟨setup, m, file⟩ script ss).1
        (runProgram ⟨setup, m', file'⟩ script' ss').1 ∧
      (runProgram ⟨setup, m, file⟩ script ss).2.Like T σ
        (runProgram ⟨setup, m', file'⟩ script' ss').2 := by
  have follows : Follows T ρ (Caught T Value.Like) (interpret setup (Report.ofFault script) ss)
      (interpret setup (Report.ofFault script') ss') :=
    interpret_follows catching described reported program
  have ends := follows m m' like
  unfold runProgram
  dsimp only
  -- how the run was reported does not matter any more, only how it ended
  generalize interpret setup (Report.ofFault script) ss m = r,
    interpret setup (Report.ofFault script') ss' m' = r' at ends ⊢
  cases ends with
  | given allowed => exact absurd allowed catching
  | @ok σ _ _ _ _ grown state caught =>
    cases caught with
    | ok value => exact ⟨σ, grown, .success value, state⟩
    | fault same => exact ⟨σ, grown, .fault same, state⟩
  | @error σ _ _ _ _ grown state same =>
    cases same with
    | fault same => exact ⟨σ, grown, .fault same, state⟩
    | defect d =>
      cases d with
      | interrupted => exact ⟨σ, grown, .defect _, state⟩
      | _ => exact ⟨σ, grown, .defect _, state.dumped _ _⟩
    | unfinished => exact ⟨σ, grown, .unfinished, state⟩

end Session

/-- A setup with small limits, without modules and built-in functions. -/
def Setup.small : Setup :=
  ⟨{}, [], [], ⟨16, 16⟩, Report.filled⟩

end ContractScript
