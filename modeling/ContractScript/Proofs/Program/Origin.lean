/-
Where the parts of a tree come from.

Every name in a tree is an identifier of the source, every text is the content of a text
token, and every place that is kept beside a node is the place of the token that stands
for it: an operator, a closing parenthesis, a bracket, a keyword. So what a report shows
of a program was written in its source, at the line that the report says.

The proof follows the productions. A production draws on the tokens if its results are
made of tokens that were left, and the tokens that it leaves are some of them; nothing
else has to be known about a state. That a token is spelled as its kind is written is
what makes the operator of a node the text of its token.
-/
import ContractScript.Eval
import ContractScript.Proofs.Program.Segmentation
import ContractScript.Proofs.Program.Dropping

set_option autoImplicit false

namespace ContractScript

/-! ## Trees made of tokens -/

section Trees

variable (T : Token → Prop)

/-- The lexeme of one of the tokens. -/
def Lexeme.From (l : Lexeme) : Prop :=
  ∃ t, T t ∧ t.lexeme = l

/-- The lexeme of one of the tokens that are identifiers. -/
def Lexeme.NameFrom (l : Lexeme) : Prop :=
  ∃ t, T t ∧ t.kind = .identifier ∧ t.lexeme = l

/-- The content of one of the tokens that are texts. -/
def Token.ContentFrom (text : String) : Prop :=
  ∃ t, T t ∧ t.kind = .text ∧ t.content = text

/-- The content of a text token, together with its place. -/
def Token.ContentAt (text : String) (place : Place) : Prop :=
  ∃ t, T t ∧ t.kind = .text ∧ t.content = text ∧ t.place = place

/-- A text is the content of a token. -/
def Literal.From : Literal → Prop
  | .text s => Token.ContentFrom T s
  | _ => True

mutual

/-- An expression is made of the tokens. -/
def Expr.From : Expr → Prop
  | .literal value => value.From T
  | .group inner => inner.From
  | .unary op place operand => Lexeme.From T ⟨op.symbol, place⟩ ∧ operand.From
  | .binary op place left right => Lexeme.From T ⟨op.symbol, place⟩ ∧ left.From ∧ right.From
  | .logical op place left right => Lexeme.From T ⟨op.symbol, place⟩ ∧ left.From ∧ right.From
  | .choice condition whenTrue whenFalse => condition.From ∧ whenTrue.From ∧ whenFalse.From
  | .variable name => name.NameFrom T
  | .qualified spaces name => ∀ l ∈ spaces ++ [name], l.NameFrom T
  | .assign name value => name.NameFrom T ∧ value.From
  | .call callee close arguments =>
    Lexeme.From T ⟨")", close⟩ ∧ callee.From ∧ Expr.AllFrom arguments
  | .list items => Expr.AllFrom items
  | .map entries => Expr.EntriesFrom entries
  | .index collection bracket key => Lexeme.From T ⟨"[", bracket⟩ ∧ collection.From ∧ key.From
  | .slice collection bracket first last =>
    Lexeme.From T ⟨"[", bracket⟩ ∧ collection.From ∧ first.From ∧ last.From

/-- The same of every expression of a list. -/
def Expr.AllFrom : List Expr → Prop
  | [] => True
  | e :: rest => e.From ∧ Expr.AllFrom rest

/-- The same of every key and value. -/
def Expr.EntriesFrom : List (Expr × Expr) → Prop
  | [] => True
  | (key, value) :: rest => (key.From ∧ value.From) ∧ Expr.EntriesFrom rest

end

/-- The same of an expression that may be missing. -/
def Expr.OptionFrom (e : Option Expr) : Prop :=
  ∀ inner, e = some inner → inner.From T

/-- The same of the conditions of a contract, and its message is the content of a token. -/
structure Clauses.From (c : Clauses) : Prop where
  conditions : Expr.AllFrom T c.conditions
  message : ∀ text, c.message = some text → Token.ContentFrom T text

/-- The same of what a function declares. -/
structure Signature.From (s : Signature) : Prop where
  name : s.name.NameFrom T
  parameters : ∀ l ∈ s.parameters, l.NameFrom T
  before : s.before.From T
  after : s.after.From T

mutual

/-- A statement is made of the tokens. -/
def Stmt.From : Stmt → Prop
  | .expression value => value.From T
  | .print value => value.From T
  | .var name value => name.NameFrom T ∧ Expr.OptionFrom T value
  | .block body => Stmt.AllFrom body
  | .branch condition whenTrue whenFalse =>
    condition.From T ∧ whenTrue.From ∧ Stmt.OptionFrom whenFalse
  | .loop condition body => condition.From T ∧ body.From
  | .leave place => Lexeme.From T ⟨"break", place⟩
  | .yield place value => Lexeme.From T ⟨"return", place⟩ ∧ Expr.OptionFrom T value
  | .function signature body => signature.From T ∧ Stmt.AllFrom body
  | .contract kind place clauses => Lexeme.From T ⟨kind.word, place⟩ ∧ clauses.From T
  | .load path place space =>
    Token.ContentAt T path place ∧ ∀ l, space = some l → l.NameFrom T
  | .test name place body => Token.ContentAt T name place ∧ body.From

/-- The same of every statement of a list. -/
def Stmt.AllFrom : List Stmt → Prop
  | [] => True
  | s :: rest => s.From ∧ Stmt.AllFrom rest

/-- The same of a statement that may be missing. -/
def Stmt.OptionFrom : Option Stmt → Prop
  | none => True
  | some s => s.From

end

end Trees

variable {T : Token → Prop}

theorem Expr.allFrom_iff (es : List Expr) : Expr.AllFrom T es ↔ ∀ e ∈ es, e.From T := by
  induction es with
  | nil => simp [Expr.AllFrom]
  | cons e rest ih => rw [Expr.AllFrom, ih, List.forall_mem_cons]

theorem Expr.entriesFrom_iff (entries : List (Expr × Expr)) :
    Expr.EntriesFrom T entries ↔ ∀ e ∈ entries, e.1.From T ∧ e.2.From T := by
  induction entries with
  | nil => simp [Expr.EntriesFrom]
  | cons e rest ih => rw [Expr.EntriesFrom, ih, List.forall_mem_cons]

theorem Stmt.allFrom_iff (body : List Stmt) : Stmt.AllFrom T body ↔ ∀ s ∈ body, s.From T := by
  induction body with
  | nil => simp [Stmt.AllFrom]
  | cons s rest ih => rw [Stmt.AllFrom, ih, List.forall_mem_cons]

theorem Clauses.From.none : Clauses.none.From T :=
  ⟨trivial, nofun⟩

/-! ## Spelling -/

namespace Token

/-- The kinds that are written in one way only. -/
def fixed : List (List Char × Kind) :=
  signs ++ keywords.map fun entry => (entry.1.toList, entry.2)

theorem fixed_unique : ∀ entry ∈ fixed, ∀ entry' ∈ fixed, entry.2 = entry'.2 → entry.1 = entry'.1 := by
  decide +kernel

theorem not_fixed : ∀ kind ∈ [Kind.text, .number, .identifier], ∀ entry ∈ fixed, entry.2 ≠ kind := by
  decide +kernel

/-- A sign or a keyword is spelled as it is listed. -/
theorem Spells.of_fixed {kind : Kind} {cs word : List Char} (h : Spells kind cs)
    (listed : (word, kind) ∈ fixed) : cs = word := by
  cases h with
  | sign listed' => exact fixed_unique _ (List.mem_append_left _ listed') _ listed rfl
  | @keyword kind word' listed' =>
    exact fixed_unique (word'.toList, kind)
      (List.mem_append_right _ (List.mem_map.mpr ⟨_, listed', rfl⟩)) _ listed rfl
  | text => exact absurd rfl (not_fixed .text (by decide) _ listed)
  | number => exact absurd rfl (not_fixed .number (by decide) _ listed)
  | identifier => exact absurd rfl (not_fixed .identifier (by decide) _ listed)

end Token

/-- Every token is spelled as its kind is written. -/
def Spelled (T : Token → Prop) : Prop :=
  ∀ t, T t → Token.Spells t.kind t.lexeme.text.toList

/-- The text that stands for a sign or a keyword, at the place of such a token, is its lexeme. -/
theorem Spelled.from_fixed (spelled : Spelled T) {t : Token} (ht : T t) {kind : Token.Kind}
    {text : String} (hk : t.kind = kind) (listed : (text.toList, kind) ∈ Token.fixed) :
    Lexeme.From T ⟨text, t.place⟩ := by
  subst hk
  have same : t.lexeme.text = text := String.toList_inj.mp ((spelled t ht).of_fixed listed)
  exact ⟨t, ht, by rw [← same]; rfl⟩

/-- A text at the place of its token is the lexeme of that token. -/
theorem Spelled.from_content (spelled : Spelled T) {text : String} {place : Place}
    (h : Token.ContentAt T text place) : Lexeme.From T (pathLexeme text place) := by
  obtain ⟨t, ht, hk, rfl, rfl⟩ := h
  have spells := spelled t ht
  rw [hk] at spells
  refine ⟨t, ht, ?_⟩
  show t.lexeme = ⟨Store.quoteText t.content, t.place⟩
  rw [Store.quoteText, ← Token.content_of_spells spells]
  rfl

namespace Parser

variable {α β : Type}

/-! ## Productions that draw on the tokens -/

/-- If all tokens that are left are among the allowed ones, every result has the property, and the
tokens that are left then are still allowed. -/
def Draws (T : Token → Prop) (P : α → Prop) (x : ParseM α) : Prop :=
  ∀ s, (∀ t ∈ s.rest, T t) → match x s with
    | .ok a s' => P a ∧ ∀ t ∈ s'.rest, T t
    | .error _ s' => ∀ t ∈ s'.rest, T t

namespace Draws

variable {P R : α → Prop} {Q : β → Prop}

theorem pure {a : α} (h : P a) : Draws T P (pure a : ParseM α) :=
  fun _ hs => ⟨h, hs⟩

theorem stop (stop : Stop) : Draws T P (throw stop : ParseM α) :=
  fun _ hs => hs

theorem bind {x : ParseM α} {f : α → ParseM β} (h : Draws T P x) (next : ∀ a, P a → Draws T Q (f a)) :
    Draws T Q (x >>= f) := by
  intro s hs
  have first := h s hs
  cases run : x s with
  | ok a s₁ =>
    rw [run] at first
    rw [bind_run_ok run]
    exact next a first.1 s₁ first.2
  | error e s₁ =>
    rw [run] at first
    rw [bind_run_error run]
    exact first

theorem mono {x : ParseM α} (h : Draws T P x) (weaker : ∀ a, P a → R a) : Draws T R x := by
  intro s hs
  have first := h s hs
  cases run : x s with
  | ok a s₁ =>
    rw [run] at first
    exact ⟨weaker a first.1, first.2⟩
  | error e s₁ =>
    rw [run] at first
    exact first

theorem ite (c : Prop) [Decidable c] {x y : ParseM α} (hx : Draws T P x) (hy : Draws T P y) :
    Draws T P (if c then x else y) := by
  split
  · exact hx
  · exact hy

/-- A step that leaves the tokens as they are. -/
theorem step {x : ParseM α} (h : ∀ s, ∃ a s', x s = .ok a s' ∧ s'.rest = s.rest) :
    Draws T (fun _ => True) x := by
  intro s hs
  obtain ⟨a, s', run, same⟩ := h s
  rw [run]
  exact ⟨trivial, same ▸ hs⟩

theorem complainAt (t : Token) (complaint : Complaint) :
    Draws T (fun _ => True) (Parser.complainAt t complaint) :=
  step fun _ => ⟨_, _, rfl, rfl⟩

theorem complain (complaint : Complaint) : Draws T (fun _ => True) (Parser.complain complaint) := by
  refine step fun s => ?_
  obtain ⟨_, s', run, same, -⟩ := complains_complain complaint s
  exact ⟨_, s', run, same⟩

theorem complainUnless (holds : Bool) (t : Token) (complaint : Complaint) :
    Draws T (fun _ => True) (Parser.complainUnless holds t complaint) :=
  ite _ (pure trivial) (complainAt t complaint)

theorem limitCount (complaint : Complaint) (count : Nat) :
    Draws T (fun _ => True) (Parser.limitCount complaint count) :=
  ite _ (complain complaint) (pure trivial)

theorem total : Draws T (fun _ => True) Parser.total :=
  step fun s => ⟨s.total, s, rfl, rfl⟩

theorem current? : Draws T (fun _ => True) Parser.current? :=
  step fun s => ⟨s.rest.head?, s, rfl, rfl⟩

theorem check (kind : Token.Kind) : Draws T (fun _ => True) (Parser.check kind) := by
  refine step fun s => ?_
  obtain ⟨b, run, -⟩ := check_run kind s
  exact ⟨b, s, run, rfl⟩

theorem messageNext (ends : List Token.Kind) : Draws T (fun _ => True) (Parser.messageNext ends) := by
  refine step fun s => ?_
  obtain ⟨b, run, -⟩ := messageNext_run ends s
  exact ⟨b, s, run, rfl⟩

theorem fail (complaint : Complaint) : Draws T P (Parser.fail complaint : ParseM α) :=
  (complain complaint).bind fun _ _ => stop .fault

/-- What is taken is made from one of the tokens. -/
theorem acceptMap (f : Token → Option α) :
    Draws T (fun r => ∀ a, r = some a → ∃ t, T t ∧ f t = some a) (Parser.acceptMap f) := by
  intro s hs
  rcases acceptMap_cases f s with ⟨t, rest, a, s', hrest, hf, run, left, -⟩ | ⟨-, run⟩
  · rw [run]
    rw [hrest] at hs
    refine ⟨?_, fun u hu => hs u (List.mem_cons_of_mem t (left ▸ hu))⟩
    rintro _ ⟨⟩
    exact ⟨t, hs t List.mem_cons_self, hf⟩
  · rw [run]
    exact ⟨nofun, hs⟩

theorem accept (kind : Token.Kind) :
    Draws T (fun r => ∀ t, r = some t → T t ∧ t.kind = kind) (Parser.accept kind) := by
  refine (acceptMap (ofKind kind)).mono fun r h t hr => ?_
  obtain ⟨u, hu, hf⟩ := h t hr
  obtain ⟨rfl, hk⟩ := ofKind_eq_some.mp hf
  exact ⟨hu, hk⟩

theorem accepted (kind : Token.Kind) : Draws T (fun _ => True) (Parser.accepted kind) :=
  (accept kind).bind fun _ _ => pure trivial

theorem expect (kind : Token.Kind) (what : String) :
    Draws T (fun t => T t ∧ t.kind = kind) (Parser.expect kind what) := by
  refine (accept kind).bind fun r h => ?_
  cases r with
  | none => exact fail _
  | some t => exact pure (h t rfl)

/-- A token that is only needed to go on. -/
theorem past {kind : Token.Kind} {what : String} {f : Token → ParseM β}
    (next : ∀ t, Draws T Q (f t)) : Draws T Q (Parser.expect kind what >>= f) :=
  (expect kind what).bind fun t _ => next t

/-- A choice by the kind of the next token. -/
theorem branch {kind : Token.Kind} {x y : ParseM β} (hx : Draws T Q x) (hy : Draws T Q y) :
    Draws T Q (Parser.accepted kind >>= fun b => if b = true then x else y) :=
  (accepted kind).bind fun _ _ => ite _ hx hy

theorem following {kind : Token.Kind} {x : ParseM α} (h : Draws T P x) :
    Draws T (fun r => ∀ a, r = some a → P a) (Parser.following kind x) := by
  refine branch (h.bind fun a ha => pure ?_) (pure nofun)
  rintro _ ⟨⟩
  exact ha

theorem itemUnless {close : Token.Kind} {x : ParseM α} (h : Draws T P x) :
    Draws T (fun r => ∀ a, r = some a → P a) (Parser.itemUnless close x) := by
  refine (check close).bind fun _ _ => ite _ (pure nofun) (h.bind fun a ha => pure ?_)
  rintro _ ⟨⟩
  exact ha

theorem commaSeparated {before : Nat → ParseM Unit} {item : ParseM α}
    (hbefore : ∀ count, Draws T (fun _ => True) (before count)) (h : Draws T P item) (rounds : Nat) :
    ∀ count, Draws T (fun items => ∀ a ∈ items, P a)
      (Parser.commaSeparated before item rounds count) := by
  induction rounds with
  | zero => exact fun _ => pure nofun
  | succ rounds ih =>
    intro count
    refine (hbefore count).bind fun _ _ => h.bind fun a ha => branch ?_ ?_
    · exact (ih (count + 1)).bind fun as has => pure (List.forall_mem_cons.mpr ⟨ha, has⟩)
    · exact pure (List.forall_mem_singleton.mpr ha)

theorem itemsUntil {close : Token.Kind} {before : Nat → ParseM Unit} {item : ParseM α}
    (hbefore : ∀ count, Draws T (fun _ => True) (before count)) (h : Draws T P item) :
    Draws T (fun items => ∀ a ∈ items, P a) (Parser.itemsUntil close before item) :=
  (check close).bind fun _ _ => ite _ (pure nofun)
    (total.bind fun m _ => commaSeparated hbefore h (m + 1) 0)

/-- Recovery drops tokens and gives nothing. -/
theorem recovering {P : Option Stmt → Prop} {x : ParseM (Option Stmt)} (h : Draws T P x)
    (nothing : P none) : Draws T P (Parser.recovering x) := by
  intro s hs
  have inner := h s hs
  rw [recovering_run]
  match x s, inner with
  | .ok r s₁, inner => exact inner
  | .error .depth s₁, inner => exact inner
  | .error .fault s₁, inner => exact ⟨nothing, fun t ht => inner t ((recover_suffix s₁.rest).subset ht)⟩

theorem attempting {P : Option Stmt → Prop} {x : ParseM (Option Stmt)} (h : Draws T P x) :
    Draws T (fun found => ∀ r, found = some r → P r) (Parser.attempting x) := by
  intro s hs
  have inner := h s hs
  rcases attempting_run x s with ⟨r, s₁, first, run⟩ | ⟨e, s₁, s₂, _, first, run, same, -⟩
  · rw [first] at inner
    rw [run]
    refine ⟨?_, inner.2⟩
    rintro _ ⟨⟩
    exact inner.1
  · rw [first] at inner
    rw [run]
    exact ⟨nofun, same ▸ inner⟩

end Draws

/-! ## Expressions -/

section Productions

variable (spelled : Spelled T)
include spelled

/-- The node that an operator builds is made of its token and its operands. -/
theorem join_from {t : Tier} {op : Token} {join : Join} (hop : T op) (h : t.join? op.kind = some join)
    {left right : Expr} (hleft : left.From T) (hright : right.From T) :
    (join op.place left right).From T := by
  unfold Tier.join? at h
  split at h
  all_goals cases h
  all_goals exact ⟨spelled.from_fixed hop ‹_› (by decide +kernel), hleft, hright⟩

theorem operators_draws {t : Tier} {operand : ParseM Expr} (h : Draws T (Expr.From T) operand)
    (rounds : Nat) : ∀ left, left.From T → Draws T (Expr.From T) (operators t operand rounds left) := by
  induction rounds with
  | zero => exact fun _ hleft => .pure hleft
  | succ rounds ih =>
    intro left hleft
    refine (Draws.acceptMap _).bind fun found hfound => ?_
    cases found with
    | none => exact .pure hleft
    | some join =>
      obtain ⟨op, hop, hmap⟩ := hfound join rfl
      obtain ⟨made, hmade, rfl⟩ := Option.map_eq_some_iff.mp hmap
      exact h.bind fun right hright => ih _ (join_from spelled hop hmade hleft hright)

omit spelled in
theorem qualifiers_draws (rounds : Nat) :
    Draws T (fun names => ∀ l ∈ names, l.NameFrom T) (qualifiers rounds) := by
  induction rounds with
  | zero => exact .pure nofun
  | succ rounds ih =>
    refine .branch ((Draws.expect _ _).bind fun t ht => ih.bind fun names hnames => .pure ?_)
      (.pure nofun)
    exact List.forall_mem_cons.mpr ⟨⟨t, ht.1, ht.2, rfl⟩, hnames⟩

omit spelled in
theorem nameExpr_from {name : Lexeme} {more : List Lexeme} (hname : name.NameFrom T)
    (hmore : ∀ l ∈ more, l.NameFrom T) : (nameExpr name more).From T := by
  unfold nameExpr
  cases hlast : more.getLast? with
  | none => exact hname
  | some last =>
    have split : name :: more.dropLast ++ [last] = name :: more := by
      rw [List.cons_append, List.dropLast_append_getLast? last hlast]
    show ∀ l ∈ name :: more.dropLast ++ [last], l.NameFrom T
    rw [split]
    exact List.forall_mem_cons.mpr ⟨hname, hmore⟩

omit spelled in
theorem suffixes_draws {call subscript : Expr → Place → ParseM Expr}
    (hcall : ∀ e p, e.From T → Draws T (Expr.From T) (call e p))
    (hsubscript : ∀ e t, e.From T → T t → t.kind = .leftSquare →
      Draws T (Expr.From T) (subscript e t.place)) (rounds : Nat) :
    ∀ operand, operand.From T →
      Draws T (Expr.From T) (suffixes call subscript rounds operand) := by
  induction rounds with
  | zero => exact fun _ h => .pure h
  | succ rounds ih =>
    intro operand h
    refine (Draws.accept _).bind fun found _ => ?_
    cases found with
    | some t => exact (hcall operand t.place h).bind ih
    | none =>
      refine (Draws.accept _).bind fun found hfound => ?_
      cases found with
      | some t =>
        obtain ⟨ht, hk⟩ := hfound t rfl
        exact (hsubscript operand t h ht hk).bind ih
      | none => exact .pure h

omit spelled in
theorem assigning_draws (equals : Token) {target value : Expr} (htarget : target.From T)
    (hvalue : value.From T) : Draws T (Expr.From T) (assigning equals target value) := by
  unfold assigning
  split
  · exact .pure ⟨htarget, hvalue⟩
  · exact (Draws.complainAt equals _).bind fun _ _ => .pure htarget

/-- The productions of expressions at one number of levels. -/
structure ExpressionsDraw (T : Token → Prop) (depth : Nat) : Prop where
  expression : Draws T (Expr.From T) (expression depth)
  assignment : Draws T (Expr.From T) (assignment depth)
  choice : Draws T (Expr.From T) (choice depth)
  tier : ∀ t, Draws T (Expr.From T) (tier depth t)
  unary : Draws T (Expr.From T) (unary depth)
  postfixed : Draws T (Expr.From T) (postfixed depth)
  arguments : ∀ e, e.From T → Draws T (Expr.From T) (arguments depth e)
  subscript : ∀ e t, e.From T → T t → t.kind = .leftSquare →
    Draws T (Expr.From T) (subscript depth e t.place)
  primary : Draws T (Expr.From T) (primary depth)
  mapEntries : Draws T (Expr.From T) (mapEntries depth)

section ExpressionLevel

variable {depth : Nat} (ih : ExpressionsDraw T depth)
include ih

omit spelled in
theorem assignment_draws : Draws T (Expr.From T) (assignment (depth + 1)) := by
  rw [assignment]
  refine ih.choice.bind fun target htarget => (Draws.accept _).bind fun found _ => ?_
  cases found with
  | none => exact .pure htarget
  | some equals => exact ih.assignment.bind fun value hvalue => assigning_draws equals htarget hvalue

omit spelled in
theorem choice_draws : Draws T (Expr.From T) (choice (depth + 1)) := by
  rw [choice]
  exact (ih.tier .or).bind fun _ hc => .branch (ih.choice.bind fun _ ht => .past fun _ =>
    ih.choice.bind fun _ hf => .pure ⟨hc, ht, hf⟩) (.pure hc)

theorem tier_draws (t : Tier) : Draws T (Expr.From T) (tier (depth + 1) t) := by
  have whole : ∀ operand : ParseM Expr, Draws T (Expr.From T) operand →
      Draws T (Expr.From T) (do let left ← operand; operators t operand (← total) left) :=
    fun operand h => h.bind fun left hleft => Draws.total.bind fun m _ =>
      operators_draws spelled h m left hleft
  rw [tier]
  cases t.tighter? with
  | some next => exact whole _ (ih.tier next)
  | none => exact whole _ ih.unary

theorem unary_draws : Draws T (Expr.From T) (unary (depth + 1)) := by
  rw [unary]
  refine (Draws.acceptMap _).bind fun found hfound => ?_
  cases found with
  | none => exact ih.postfixed
  | some op =>
    obtain ⟨t, ht, hop⟩ := hfound op rfl
    refine ih.unary.bind fun operand hoperand => .pure ?_
    unfold unaryOp? at hop
    split at hop
    all_goals cases hop
    all_goals refine ⟨spelled.from_fixed ht ‹_› ?_, hoperand⟩
    · exact (by decide +kernel : ("!".toList, Token.Kind.bang) ∈ Token.fixed)
    · exact (by decide +kernel : ("-".toList, Token.Kind.minus) ∈ Token.fixed)

omit spelled in
theorem postfixed_draws : Draws T (Expr.From T) (postfixed (depth + 1)) := by
  rw [postfixed]
  exact ih.primary.bind fun operand h => Draws.total.bind fun m _ =>
    suffixes_draws (fun e _ he => ih.arguments e he) ih.subscript m operand h

theorem arguments_draws (callee : Expr) (h : callee.From T) :
    Draws T (Expr.From T) (arguments (depth + 1) callee) := by
  rw [arguments]
  refine (Draws.itemsUntil (fun _ => .limitCount _ _) ih.expression).bind fun items hitems =>
    (Draws.expect _ _).bind fun close hclose => .pure ?_
  exact ⟨spelled.from_fixed hclose.1 hclose.2 (by decide +kernel), h,
    (Expr.allFrom_iff items).mpr hitems⟩

theorem subscript_draws (collection : Expr) (bracket : Token) (h : collection.From T)
    (hb : T bracket) (hk : bracket.kind = .leftSquare) :
    Draws T (Expr.From T) (subscript (depth + 1) collection bracket.place) := by
  have lexeme : Lexeme.From T ⟨"[", bracket.place⟩ := spelled.from_fixed hb hk (by decide +kernel)
  rw [subscript]
  exact ih.expression.bind fun _ hfirst => .branch
    (ih.expression.bind fun _ hlast => .past fun _ => .pure ⟨lexeme, h, hfirst, hlast⟩)
    (.past fun _ => .pure ⟨lexeme, h, hfirst⟩)

omit spelled in
theorem mapEntries_draws : Draws T (Expr.From T) (mapEntries (depth + 1)) := by
  rw [mapEntries]
  refine (Draws.itemsUntil (P := fun e : Expr × Expr => e.1.From T ∧ e.2.From T)
    (fun _ => .pure trivial) ?entry).bind fun entries h =>
      .past fun _ => .pure ((Expr.entriesFrom_iff entries).mpr h)
  case entry =>
    exact ih.expression.bind fun _ hkey => .past fun _ => ih.expression.bind fun _ hvalue =>
      .pure ⟨hkey, hvalue⟩

omit spelled ih in
theorem literal_from {t : Token} (ht : T t) {value : Literal} (h : literal? t = some value) :
    value.From T := by
  unfold literal? at h
  split at h
  all_goals cases h
  case h_5 hk => exact ⟨t, ht, hk, rfl⟩
  all_goals trivial

omit spelled in
theorem primary_draws : Draws T (Expr.From T) (primary (depth + 1)) := by
  rw [primary]
  refine (Draws.acceptMap _).bind fun found hfound => ?_
  cases found with
  | some value =>
    obtain ⟨t, ht, hvalue⟩ := hfound value rfl
    exact .pure (literal_from ht hvalue)
  | none =>
  refine (Draws.accept _).bind fun found hfound => ?_
  cases found with
  | some name =>
    obtain ⟨ht, hk⟩ := hfound name rfl
    exact Draws.total.bind fun m _ => (qualifiers_draws m).bind fun more hmore =>
      .pure (nameExpr_from ⟨name, ht, hk, rfl⟩ hmore)
  | none =>
  refine .branch ?group (.branch ?list (.branch ?map ?operator))
  case group => exact ih.expression.bind fun _ h => .past fun _ => .pure h
  case list =>
    exact (Draws.itemsUntil (fun _ => .pure trivial) ih.expression).bind fun items h =>
      .past fun _ => .pure ((Expr.allFrom_iff items).mpr h)
  case map => exact ih.mapEntries
  case operator =>
    -- an operator that starts an expression is reported, and nothing is made of it
    refine (Draws.acceptMap _).bind fun found _ => ?_
    cases found with
    | some t => exact (Draws.complainAt t _).bind fun _ _ => .stop .fault
    | none => exact .fail _

end ExpressionLevel

theorem expressionsDraw (depth : Nat) : ExpressionsDraw T depth := by
  induction depth with
  | zero =>
    exact ⟨.stop _, .stop _, .stop _, fun _ => .stop _, .stop _, .stop _, fun _ _ => .stop _,
      fun _ _ _ _ _ => .stop _, .stop _, .stop _⟩
  | succ depth ih =>
    exact
      { expression := by
          rw [expression]
          exact ih.assignment
        assignment := assignment_draws ih
        choice := choice_draws ih
        tier := tier_draws spelled ih
        unary := unary_draws spelled ih
        postfixed := postfixed_draws ih
        arguments := arguments_draws spelled ih
        subscript := subscript_draws spelled ih
        primary := primary_draws ih
        mapEntries := mapEntries_draws ih }

/-! ## Contracts -/

omit spelled in
theorem clauseItems_draws {ends : List Token.Kind} {condition : ParseM Expr}
    (h : Draws T (Expr.From T) condition) (rounds : Nat) :
    Draws T (fun found => (∀ e ∈ found.1, e.From T) ∧
      ∀ t, found.2 = some t → T t ∧ t.kind = .text) (clauseItems ends condition rounds) := by
  induction rounds with
  | zero => exact .pure ⟨nofun, nofun⟩
  | succ rounds ih =>
    refine (Draws.messageNext ends).bind fun _ _ => .ite _ ?_ ?_
    · exact (Draws.accept _).bind fun _ hmessage => .pure ⟨nofun, hmessage⟩
    · refine h.bind fun first hfirst => .branch (ih.bind fun found hfound => .pure ?_) (.pure ?_)
      · exact ⟨List.forall_mem_cons.mpr ⟨hfirst, hfound.1⟩, hfound.2⟩
      · exact ⟨List.forall_mem_singleton.mpr hfirst, nofun⟩

theorem clauses_draws (ends : List Token.Kind) (depth : Nat) :
    Draws T (Clauses.From T) (clauses ends depth) := by
  cases depth with
  | zero => exact .stop _
  | succ depth =>
    rw [clauses]
    refine Draws.total.bind fun m _ => (clauseItems_draws (expressionsDraw spelled depth).expression
      (m + 1)).bind fun found hfound => ?_
    obtain ⟨conditions, message⟩ := found
    have result : Clauses.From T ⟨conditions, message.map Token.content⟩ := by
      refine ⟨(Expr.allFrom_iff conditions).mpr hfound.1, fun text h => ?_⟩
      obtain ⟨t, ht, rfl⟩ := Option.map_eq_some_iff.mp h
      exact ⟨t, (hfound.2 t ht).1, (hfound.2 t ht).2, rfl⟩
    cases conditions with
    | cons e es => exact .pure result
    | nil =>
      cases message with
      | none => exact .pure result
      | some t => exact (Draws.complainAt t _).bind fun _ _ => .stop .fault

theorem functionClauses_draws (kind : Token.Kind) (word : String) (ends : List Token.Kind)
    (depth : Nat) : Draws T (Clauses.From T) (functionClauses kind word ends depth) :=
  .branch (.past fun _ => clauses_draws spelled ends depth) (.pure .none)

/-! ## Statements -/

theorem varDeclaration_draws (depth : Nat) : Draws T (Stmt.From T) (varDeclaration depth) := by
  cases depth with
  | zero => exact .stop _
  | succ depth =>
    rw [varDeclaration]
    exact (Draws.expect _ _).bind fun name hname =>
      (Draws.following (expressionsDraw spelled depth).expression).bind fun value hvalue =>
        .past fun _ => .pure ⟨⟨name, hname.1, hname.2, rfl⟩, hvalue⟩

theorem expressionStatement_draws (depth : Nat) :
    Draws T (Stmt.From T) (expressionStatement depth) := by
  cases depth with
  | zero => exact .stop _
  | succ depth =>
    rw [expressionStatement]
    exact (expressionsDraw spelled depth).expression.bind fun _ h => .past fun _ => .pure h

theorem printStatement_draws (depth : Nat) : Draws T (Stmt.From T) (printStatement depth) := by
  cases depth with
  | zero => exact .stop _
  | succ depth =>
    rw [printStatement]
    exact (expressionsDraw spelled depth).expression.bind fun _ h => .past fun _ => .pure h

theorem leaveStatement_draws (context : Context) {keyword : Token} (ht : T keyword)
    (hk : keyword.kind = .kwBreak) : Draws T (Stmt.From T) (leaveStatement context keyword) :=
  .past fun _ => (Draws.complainUnless _ _ _).bind fun _ _ =>
    .pure (spelled.from_fixed ht hk (by decide +kernel))

theorem yieldStatement_draws (context : Context) {keyword : Token} (ht : T keyword)
    (hk : keyword.kind = .kwReturn) (depth : Nat) :
    Draws T (Stmt.From T) (yieldStatement context keyword depth) := by
  cases depth with
  | zero => exact .stop _
  | succ depth =>
    rw [yieldStatement]
    exact (Draws.complainUnless _ _ _).bind fun _ _ =>
      (Draws.itemUnless (expressionsDraw spelled depth).expression).bind fun value hvalue =>
        .past fun _ => .pure ⟨spelled.from_fixed ht hk (by decide +kernel), hvalue⟩

theorem contractStatement_draws {kind : ContractKind} {place : Place}
    (h : Lexeme.From T ⟨kind.word, place⟩) (depth : Nat) :
    Draws T (Stmt.From T) (contractStatement kind place depth) := by
  cases depth with
  | zero => exact .stop _
  | succ depth =>
    rw [contractStatement]
    exact .past fun _ => (clauses_draws spelled _ depth).bind fun _ hfound =>
      .past fun _ => .pure ⟨h, hfound⟩

omit spelled in
theorem loadStatement_draws : Draws T (Stmt.From T) loadStatement := by
  rw [loadStatement]
  refine (Draws.expect _ _).bind fun path hpath =>
    (Draws.following (Draws.expect _ _)).bind fun space hspace => .past fun _ => .pure ⟨?_, ?_⟩
  · exact ⟨path, hpath.1, hpath.2, rfl, rfl⟩
  · intro l h
    obtain ⟨t, ht, rfl⟩ := Option.map_eq_some_iff.mp h
    exact ⟨t, (hspace t ht).1, (hspace t ht).2, rfl⟩

theorem loopStart_draws (depth : Nat) : Draws T (Stmt.OptionFrom T) (loopStart depth) := by
  rw [loopStart]
  exact .branch (.pure trivial) (.branch ((varDeclaration_draws spelled depth).bind fun _ h => .pure h)
    ((expressionStatement_draws spelled depth).bind fun _ h => .pure h))

omit spelled in
theorem forLoop_from {start : Option Stmt} {condition step : Option Expr} {body : Stmt}
    (hstart : Stmt.OptionFrom T start) (hcondition : Expr.OptionFrom T condition)
    (hstep : Expr.OptionFrom T step) (hbody : body.From T) :
    (forLoop start condition step body).From T := by
  have holds : (condition.getD (.literal (.bool true))).From T := by
    cases condition with
    | none => trivial
    | some e => exact hcondition e rfl
  unfold forLoop
  cases start with
  | none =>
    cases step with
    | none => exact ⟨holds, hbody⟩
    | some e => exact ⟨holds, hbody, hstep e rfl, trivial⟩
  | some s =>
    cases step with
    | none => exact ⟨hstart, ⟨holds, hbody⟩, trivial⟩
    | some e => exact ⟨hstart, ⟨holds, hbody, hstep e rfl, trivial⟩, trivial⟩

theorem signature_draws (depth : Nat) : Draws T (Signature.From T) (signature depth) := by
  rw [signature]
  refine (Draws.expect _ _).bind fun name hname => .past fun _ =>
    (Draws.itemsUntil (fun _ => .limitCount _ _) (Draws.expect _ _)).bind fun parameters hps =>
    .past fun _ => (functionClauses_draws spelled _ _ _ depth).bind fun before hbefore =>
    (functionClauses_draws spelled _ _ _ depth).bind fun after hafter => .past fun _ => .pure ?_
  refine ⟨⟨name, hname.1, hname.2, rfl⟩, fun l hl => ?_, hbefore, hafter⟩
  obtain ⟨t, ht, rfl⟩ := List.mem_map.mp hl
  exact ⟨t, (hps t ht).1, (hps t ht).2, rfl⟩

/-- The productions of statements at one number of levels. -/
structure StatementsDraw (T : Token → Prop) (depth : Nat) : Prop where
  declaration : ∀ context, Draws T (Stmt.OptionFrom T) (declaration context depth)
  function : ∀ context, Draws T (Stmt.From T) (function context depth)
  testStatement : ∀ context, Draws T (Stmt.From T) (testStatement context depth)
  statement : ∀ context, Draws T (Stmt.From T) (statement context depth)
  block : ∀ context, Draws T (Stmt.AllFrom T) (block context depth)
  branch : ∀ context, Draws T (Stmt.From T) (branch context depth)
  loopBody : ∀ context, Draws T (Stmt.From T) (loopBody context depth)
  whileLoop : ∀ context, Draws T (Stmt.From T) (whileLoop context depth)
  forStatement : ∀ context, Draws T (Stmt.From T) (forStatement context depth)

omit spelled in
theorem allFrom_append {first : Option Stmt} {rest : List Stmt} (h : Stmt.OptionFrom T first)
    (hrest : Stmt.AllFrom T rest) : Stmt.AllFrom T (first.toList ++ rest) := by
  cases first with
  | none => exact hrest
  | some s => exact ⟨h, hrest⟩

omit spelled in
theorem statementsUntilBrace_draws {one : ParseM (Option Stmt)} (h : Draws T (Stmt.OptionFrom T) one)
    (rounds : Nat) : Draws T (Stmt.AllFrom T) (statementsUntilBrace one rounds) := by
  induction rounds with
  | zero => exact .pure trivial
  | succ rounds ih =>
    rw [statementsUntilBrace]
    refine Draws.current?.bind fun next _ => ?_
    cases next with
    | none => exact .pure trivial
    | some t =>
      exact .ite _ (.pure trivial) (h.bind fun _ hfirst => ih.bind fun _ hrest =>
        .pure (allFrom_append hfirst hrest))

section StatementLevel

variable {depth : Nat} (ih : StatementsDraw T depth) (context : Context)
include ih

omit spelled in
theorem block_draws : Draws T (Stmt.AllFrom T) (block context (depth + 1)) := by
  rw [block]
  exact Draws.total.bind fun m _ => (statementsUntilBrace_draws (ih.declaration context) m).bind
    fun _ hbody => .past fun _ => .pure hbody

theorem function_draws : Draws T (Stmt.From T) (function context (depth + 1)) := by
  rw [function]
  exact (signature_draws spelled depth).bind fun _ hsignature => (ih.block _).bind fun _ hbody =>
    .pure ⟨hsignature, hbody⟩

omit spelled in
theorem testStatement_draws : Draws T (Stmt.From T) (testStatement context (depth + 1)) := by
  rw [testStatement]
  exact (Draws.expect _ _).bind fun name hname => (ih.statement _).bind fun _ hbody =>
    .pure ⟨⟨name, hname.1, hname.2, rfl, rfl⟩, hbody⟩

theorem branch_draws : Draws T (Stmt.From T) (branch context (depth + 1)) := by
  rw [branch]
  refine .past fun _ => (expressionsDraw spelled depth).expression.bind fun _ hcondition =>
    .past fun _ => (ih.statement context).bind fun _ htrue =>
    (Draws.following (ih.statement context)).bind fun whenFalse hfalse =>
    .pure ⟨hcondition, htrue, ?_⟩
  cases whenFalse with
  | none => trivial
  | some s => exact hfalse s rfl

theorem whileLoop_draws : Draws T (Stmt.From T) (whileLoop context (depth + 1)) := by
  rw [whileLoop]
  exact .past fun _ => (expressionsDraw spelled depth).expression.bind fun _ hcondition =>
    .past fun _ => (ih.loopBody context).bind fun _ hbody => .pure ⟨hcondition, hbody⟩

theorem forStatement_draws : Draws T (Stmt.From T) (forStatement context (depth + 1)) := by
  have item : ∀ close, Draws T (Expr.OptionFrom T) (itemUnless close (expression depth)) :=
    fun _ => .itemUnless (expressionsDraw spelled depth).expression
  rw [forStatement]
  exact .past fun _ => (loopStart_draws spelled depth).bind fun _ hstart =>
    (item _).bind fun _ hcondition => .past fun _ => (item _).bind fun _ hstep => .past fun _ =>
    (ih.loopBody context).bind fun _ hbody => .pure (forLoop_from hstart hcondition hstep hbody)

theorem statement_draws : Draws T (Stmt.From T) (statement context (depth + 1)) := by
  rw [statement]
  refine .branch (printStatement_draws spelled depth) (.branch
    ((ih.block context).bind fun _ hbody => .pure hbody) (.branch (ih.branch context) (.branch
    (ih.whileLoop context) (.branch (ih.forStatement context) ?keywords))))
  case keywords =>
    -- what a keyword leaves in a statement is its place, which is that of a token
    refine (Draws.accept _).bind fun found hfound => ?_
    cases found with
    | some keyword =>
      obtain ⟨ht, hk⟩ := hfound keyword rfl
      exact leaveStatement_draws spelled context ht hk
    | none =>
    refine (Draws.accept _).bind fun found hfound => ?_
    cases found with
    | some keyword =>
      obtain ⟨ht, hk⟩ := hfound keyword rfl
      exact yieldStatement_draws spelled context ht hk depth
    | none =>
    refine (Draws.accept _).bind fun found hfound => ?_
    cases found with
    | some keyword =>
      obtain ⟨ht, hk⟩ := hfound keyword rfl
      exact contractStatement_draws spelled
        (spelled.from_fixed ht hk (by decide +kernel)) depth
    | none =>
    refine (Draws.accept _).bind fun found hfound => ?_
    cases found with
    | some keyword =>
      obtain ⟨ht, hk⟩ := hfound keyword rfl
      exact contractStatement_draws spelled
        (spelled.from_fixed ht hk (by decide +kernel)) depth
    | none => exact .branch loadStatement_draws (expressionStatement_draws spelled depth)

theorem declaration_draws : Draws T (Stmt.OptionFrom T) (declaration context (depth + 1)) := by
  rw [declaration]
  refine .recovering (.branch ((varDeclaration_draws spelled depth).bind fun _ h => .pure h)
    (.branch ((ih.function context).bind fun _ h => .pure h) (.branch ?test
      ((ih.statement context).bind fun _ h => .pure h)))) trivial
  case test =>
    refine (ih.testStatement context).bind fun test htest => .pure ?_
    split
    · exact htest
    · trivial

end StatementLevel

theorem statementsDraw (depth : Nat) : StatementsDraw T depth := by
  induction depth with
  | zero =>
    exact ⟨fun _ => .stop _, fun _ => .stop _, fun _ => .stop _, fun _ => .stop _, fun _ => .stop _,
      fun _ => .stop _, fun _ => .stop _, fun _ => .stop _, fun _ => .stop _⟩
  | succ depth ih =>
    exact
      { declaration := declaration_draws spelled ih
        function := function_draws spelled ih
        testStatement := testStatement_draws ih
        statement := statement_draws spelled ih
        block := block_draws ih
        branch := branch_draws spelled ih
        loopBody := fun context => by
          rw [loopBody]
          exact ih.statement { context with inLoop := true }
        whileLoop := whileLoop_draws spelled ih
        forStatement := forStatement_draws spelled ih }

omit spelled in
theorem declarations_draws {one : ParseM (Option Stmt)} (h : Draws T (Stmt.OptionFrom T) one)
    (rounds : Nat) : Draws T (Stmt.AllFrom T) (declarations one rounds) := by
  induction rounds with
  | zero => exact .pure trivial
  | succ rounds ih =>
    rw [declarations]
    refine Draws.current?.bind fun next _ => ?_
    cases next with
    | none => exact .pure trivial
    | some t =>
      refine h.attempting.bind fun found hfound => ?_
      cases found with
      | none => exact .pure trivial
      | some first =>
        exact ih.bind fun _ hrest => .pure (allFrom_append (hfound first rfl) hrest)

end Productions

end Parser

/-! ## Programs -/

/-- The tree of a parse is made of its tokens, whether it is well formed or not. -/
theorem Program.from_parse (keepTests : Bool) (spelled : Spelled T) {input : TokenList}
    (h : ∀ t ∈ input.tokens, T t) : Stmt.AllFrom T (Program.parse keepTests input).1 := by
  obtain ⟨p, s, run⟩ := Parser.declarations_total
    (Parser.declaration (Parser.Context.top keepTests) Parser.nesting) input.tokens.length
    (Parser.State.start input)
  have drawn := Parser.declarations_draws
    ((Parser.statementsDraw spelled Parser.nesting).declaration (Parser.Context.top keepTests))
    input.tokens.length (Parser.State.start input) h
  rw [run] at drawn
  rw [Program.parse_run keepTests input run]
  exact drawn.1

/-- The tree of a source is made of the tokens of the source. -/
theorem Program.from_source (keepTests : Bool) (file : Option String) (source : String) :
    Stmt.AllFrom (· ∈ (TokenList.scan file source).1.tokens)
      (Program.ofSource keepTests file source).1 :=
  Program.from_parse keepTests (fun _ member => TokenList.spells_of_mem member) fun _ member => member

end ContractScript
