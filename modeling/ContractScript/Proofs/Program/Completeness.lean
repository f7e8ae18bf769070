/-
What the grammar derives, the parser reads.

A derivation is read back wherever what follows it pulls more weakly than its own
operators, so that no production takes too much. As for soundness the statement
for all productions together is proved by induction on the number of levels, here
with the derivation given; repetitions are walked along the derivation.
-/
import ContractScript.Proofs.Program.Delivery
import ContractScript.Proofs.Program.Permitted

set_option autoImplicit false

namespace ContractScript.Parser

open Grammar

/-! ## Expressions -/

/-- Whatever a nonterminal derives is read, provided that what follows pulls less than `limit`. -/
def Complete (G : List Token → Expr → Prop) (limit : Nat) (p : ParseM Expr) : Prop :=
  ∀ ts e after, G ts e → pull after < limit → Delivers True e.Permitted p ts after e

/-- The productions of expressions at one number of levels. -/
structure ExpressionsComplete (depth : Nat) : Prop where
  expression : Complete Assignment 1 (expression depth)
  assignment : Complete Assignment 1 (assignment depth)
  choice : Complete Choice 2 (choice depth)
  tier : ∀ t, Complete (Level t) (tierStrength t) (tier depth t)
  unary : Complete Unary 9 (unary depth)
  postfixed : Complete Postfixed 9 (postfixed depth)
  primary : Complete Primary 10 (primary depth)
  arguments : ∀ callee ts items (close : Token) after, Items Assignment ts items →
    close.kind = .rightParen →
    Delivers True (items.length ≤ maxArguments ∧ Expr.AllPermitted items) (arguments depth callee)
      (ts ++ [close]) after (.call callee close.place items)
  index : ∀ collection bracket ts key (close : Token) after, Assignment ts key →
    close.kind = .rightSquare →
    Delivers True key.Permitted (subscript depth collection bracket) (ts ++ [close]) after
      (.index collection bracket key)
  slice : ∀ collection bracket ts first (colon : Token) us last (close : Token) after,
    Assignment ts first → colon.kind = .colon → Assignment us last → close.kind = .rightSquare →
    Delivers True (first.Permitted ∧ last.Permitted) (subscript depth collection bracket)
      (ts ++ colon :: (us ++ [close])) after (.slice collection bracket first last)
  mapEntries : ∀ ts entries (close : Token) after, Items MapEntry ts entries →
    close.kind = .rightBrace →
    Delivers True (Expr.EntriesPermitted entries) (mapEntries depth) (ts ++ [close]) after (.map entries)

/-! ### Repetitions -/

/-- A closing token or the like is next, so no expression goes on. -/
theorem pull_lt_of_kind {t : Token} {kind : Token.Kind} {rest : List Token} (ht : t.kind = kind)
    (hk : strength kind = 0) : pull (t :: rest) < 1 := by
  rw [pull_cons, ht, hk]
  exact Nat.zero_lt_one

/-- A tier takes no token that pulls more weakly than its operators. -/
theorem refuses_join {t : Tier} {ts : List Token} (h : pull ts < tierStrength t) :
    Refuses (fun u => (t.join? u.kind).map fun join => join u.place) ts := by
  rintro u rest rfl
  cases hj : t.join? u.kind with
  | none => simp only [hj, Option.map_none]
  | some join =>
    rw [pull_cons, (join?_eq_some.mp hj).strength_eq] at h
    exact absurd h (Nat.lt_irrefl _)

theorem operators_none {deep fine : Prop} {t : Tier} {operand : ParseM Expr} {left : Expr}
    {after : List Token} (rounds : Nat) (hafter : pull after < tierStrength t) :
    Delivers deep fine (operators t operand rounds left) [] after left := by
  cases rounds with
  | zero => exact .pure left
  | succ rounds => exact .acceptMap_none (refuses_join hafter) (.pure left)

/-- Operators after a left operand. -/
theorem operators_complete {t : Tier} {operand : ParseM Expr}
    (h : Complete (Operand t) (tierStrength t + 1) operand) {left e : Expr} {ts : List Token} :
    Operators t left ts e → ∀ rounds after, ts.length ≤ rounds → pull after < tierStrength t →
      Delivers True e.Permitted (operators t operand rounds left) ts after e
  | .done, rounds, _, _, hafter => operators_none rounds hafter
  | .more _ _ _, 0, _, hrounds, _ => absurd hrounds (Nat.not_succ_le_zero _)
  | @Operators.more _ op _ _ rest _ right _ hj hright hrest, rounds + 1, after, hrounds,
      hafter => by
    rw [List.length_cons, List.length_append] at hrounds
    have accepts : ((t.join? op.kind).map fun join => join op.place) = some _ :=
      Option.map_eq_some_iff.mpr ⟨_, join?_eq_some.mpr hj, rfl⟩
    refine .acceptMap_some accepts (.bind (a := right) ?_ ?_)
    · refine (h _ right (rest ++ after) hright (hrest.pull_append hafter)).weaken fun hP => ?_
      exact ((hj.permitted_iff _ _ _).mp (hrest.permitted_left hP)).2
    · exact operators_complete h hrest rounds after (by omega) hafter

/-- Names after a first one. -/
theorem qualifiers_complete {fine : Prop} {ts : List Token} {names : List Lexeme} (h : Path ts names) :
    ∀ (rounds : Nat) (separator : Token) (after : List Token), ts.length < rounds →
      separator.kind = .doubleColon → pull after < 10 →
      Delivers True fine (qualifiers rounds) (separator :: ts) after names := by
  induction h with
  | @one t ht =>
    intro rounds separator after hrounds hsep hafter
    obtain ⟨rounds, rfl⟩ : ∃ k, rounds = k + 2 := ⟨rounds - 2, by rw [List.length_singleton] at hrounds; omega⟩
    have noMore : ¬StartsWith .doubleColon after := not_startsWith_of_pull hafter
    exact .accepted_yes hsep (.expecting ht (.bindPure (.accepted_no noMore (.pure []))))
  | @more t next rest names ht hnext _ ih =>
    intro rounds separator after hrounds hsep hafter
    rw [List.length_cons, List.length_cons] at hrounds
    obtain ⟨rounds, rfl⟩ : ∃ k, rounds = k + 1 := ⟨rounds - 1, by omega⟩
    exact .accepted_yes hsep (.expecting ht (.bindPure (ih rounds next after (by omega) hnext hafter)))

/-- Calls and subscripts after an operand, as the productions of one number of levels read them. -/
abbrev suffixesAt (depth rounds : Nat) (operand : Expr) : ParseM Expr :=
  suffixes (fun callee _ => arguments depth callee) (subscript depth) rounds operand

theorem suffixes_none {deep fine : Prop} {depth : Nat} {operand : Expr} {after : List Token}
    (rounds : Nat) (hafter : pull after < 9) :
    Delivers deep fine (suffixesAt depth rounds operand) [] after operand := by
  have noParen : ¬StartsWith .leftParen after := not_startsWith_of_pull hafter
  have noSquare : ¬StartsWith .leftSquare after := not_startsWith_of_pull hafter
  cases rounds with
  | zero => exact .pure operand
  | succ rounds => exact .accept_none noParen (.accept_none noSquare (.pure operand))

section Suffix

variable {depth rounds : Nat} (h : ExpressionsComplete depth) {opening close : Token}
  {ts rest after : List Token} {operand e : Expr}
include h

theorem suffixes_call {items : List Expr} (hk : opening.kind = .leftParen)
    (hitems : Items Assignment ts items) (hclose : close.kind = .rightParen)
    (hrest : Suffixes (.call operand close.place items) rest e)
    (next : Delivers True e.Permitted (suffixesAt depth rounds (.call operand close.place items)) rest
      after e) :
    Delivers True e.Permitted (suffixesAt depth (rounds + 1) operand)
      (opening :: (ts ++ close :: rest)) after e := by
  have shape : ts ++ close :: rest = (ts ++ [close]) ++ rest := by
    rw [List.append_assoc, List.singleton_append]
  rw [shape]
  refine .accept_some hk (.bind ((h.arguments operand ts items close _ hitems hclose).weaken ?_) next)
  intro hP
  have node := hrest.permitted_left hP
  rw [Expr.Permitted] at node
  exact node.2

theorem suffixes_index {key : Expr} (hk : opening.kind = .leftSquare) (hkey : Assignment ts key)
    (hclose : close.kind = .rightSquare) (hrest : Suffixes (.index operand opening.place key) rest e)
    (next : Delivers True e.Permitted (suffixesAt depth rounds (.index operand opening.place key)) rest
      after e) :
    Delivers True e.Permitted (suffixesAt depth (rounds + 1) operand)
      (opening :: (ts ++ close :: rest)) after e := by
  have shape : ts ++ close :: rest = (ts ++ [close]) ++ rest := by
    rw [List.append_assoc, List.singleton_append]
  rw [shape]
  refine .skipAccept (by rw [hk]; decide) (.accept_some hk
    (.bind ((h.index operand opening.place ts key close _ hkey hclose).weaken ?_) next))
  intro hP
  have node := hrest.permitted_left hP
  rw [Expr.Permitted] at node
  exact node.2

theorem suffixes_slice {colon : Token} {us : List Token} {first last : Expr}
    (hk : opening.kind = .leftSquare) (hfirst : Assignment ts first) (hcolon : colon.kind = .colon)
    (hlast : Assignment us last) (hclose : close.kind = .rightSquare)
    (hrest : Suffixes (.slice operand opening.place first last) rest e)
    (next : Delivers True e.Permitted (suffixesAt depth rounds (.slice operand opening.place first last))
      rest after e) :
    Delivers True e.Permitted (suffixesAt depth (rounds + 1) operand)
      (opening :: (ts ++ colon :: (us ++ close :: rest))) after e := by
  have shape : ts ++ colon :: (us ++ close :: rest) = (ts ++ colon :: (us ++ [close])) ++ rest := by
    simp only [List.append_assoc, List.cons_append, List.nil_append]
  rw [shape]
  refine .skipAccept (by rw [hk]; decide) (.accept_some hk (.bind ((h.slice operand opening.place ts
    first colon us last close _ hfirst hcolon hlast hclose).weaken ?_) next))
  intro hP
  have node := hrest.permitted_left hP
  rw [Expr.Permitted] at node
  exact node.2

omit h in
/-- What is left behind a first token and another one is at least two tokens shorter. -/
theorem length_behind_le {ts rest : List Token} {t u : Token} {rounds : Nat}
    (h : (t :: (ts ++ u :: rest)).length ≤ rounds + 1) : rest.length ≤ rounds := by
  rw [List.length_cons, List.length_append, List.length_cons] at h
  omega

omit h in
theorem length_behind_slice_le {ts us rest : List Token} {t u w : Token} {rounds : Nat}
    (h : (t :: (ts ++ u :: (us ++ w :: rest))).length ≤ rounds + 1) : rest.length ≤ rounds := by
  have shorter := length_behind_le h
  rw [List.length_append, List.length_cons] at shorter
  omega

end Suffix

/-- Calls and subscripts after an operand. -/
theorem suffixes_complete {depth : Nat} (h : ExpressionsComplete depth) {operand e : Expr}
    {ts : List Token} :
    Suffixes operand ts e → ∀ rounds after, ts.length ≤ rounds → pull after < 9 →
      Delivers True e.Permitted (suffixesAt depth rounds operand) ts after e
  | .done, rounds, _, _, hafter => suffixes_none rounds hafter
  | .call _ _ _ _, 0, _, hrounds, _ => absurd hrounds (Nat.not_succ_le_zero _)
  | .index _ _ _ _, 0, _, hrounds, _ => absurd hrounds (Nat.not_succ_le_zero _)
  | .slice _ _ _ _ _ _, 0, _, hrounds, _ => absurd hrounds (Nat.not_succ_le_zero _)
  | .call hk hitems hclose hrest, rounds + 1, after, hrounds, hafter =>
    suffixes_call h hk hitems hclose hrest
      (suffixes_complete h hrest rounds after (length_behind_le hrounds) hafter)
  | .index hk hkey hclose hrest, rounds + 1, after, hrounds, hafter =>
    suffixes_index h hk hkey hclose hrest
      (suffixes_complete h hrest rounds after (length_behind_le hrounds) hafter)
  | .slice hk hfirst hcolon hlast hclose hrest, rounds + 1, after, hrounds, hafter =>
    suffixes_slice h hk hfirst hcolon hlast hclose hrest
      (suffixes_complete h hrest rounds after (length_behind_slice_le hrounds) hafter)

/-! ### One level -/

section Level

variable {depth : Nat} (ih : ExpressionsComplete depth)
include ih

theorem assignment_complete : Complete Assignment 1 (assignment (depth + 1)) := by
  intro ts e after h hafter
  rw [assignment]
  cases h with
  | @assign name equals ts value hname hequals hvalue =>
    -- the target is read as any choice is, and found to be a name afterwards
    have target : Choice [name] (.variable name.lexeme) := (Primary.name hname).toUnary.toChoice
    have follows : pull ((equals :: ts) ++ after) < 2 := by
      rw [List.cons_append, pull_cons, hequals]
      decide
    refine .bind (u := [name]) ((ih.choice _ _ _ target follows).weaken fun _ => trivial)
      (.accept_some hequals (.bindPure ((ih.assignment _ _ _ hvalue hafter).weaken fun hP => ?_)))
    rwa [Expr.Permitted] at hP
  | choice h =>
    have noEqual : ¬StartsWith .equal after := not_startsWith_of_pull hafter
    exact .bindLast (ih.choice _ _ _ h (Nat.lt_succ_of_lt hafter)) (.accept_none noEqual (.pure e))

theorem choice_complete : Complete Choice 2 (choice (depth + 1)) := by
  intro ts e after h hafter
  rw [choice]
  cases h with
  | plain h =>
    have noQuestion : ¬StartsWith .question after := not_startsWith_of_pull hafter
    exact .bindLast (ih.tier .or _ _ _ h (Nat.lt_succ_of_lt hafter))
      (.accepted_no noQuestion (.pure e))
  | @choice question colon cs ts fs c t f hc hq ht hcolon hf =>
    have behindCondition : pull ((question :: (ts ++ colon :: fs)) ++ after) < tierStrength .or := by
      rw [List.cons_append, pull_cons, hq]
      decide
    have behindFirst : pull ((colon :: fs) ++ after) < 2 := by
      rw [List.cons_append, pull_cons, hcolon]
      decide
    refine .bind (.weaken (ih.tier .or _ _ _ hc behindCondition) fun hP => ?_)
      (.accepted_yes hq (.bind (.weaken (ih.choice _ _ _ ht behindFirst) fun hP => ?_)
        (.expecting hcolon (.bindPure (.weaken (ih.choice _ _ _ hf hafter) fun hP => ?_)))))
    all_goals rw [Expr.Permitted] at hP
    · exact hP.1
    · exact hP.2.1
    · exact hP.2.2

/-- The operand of a tier is the next tighter tier. -/
theorem operand_complete (t : Tier) : Complete (Operand t) (tierStrength t + 1)
    (match t.tighter? with
      | some next => tier depth next
      | none => unary depth) := by
  intro ts e after h hafter
  cases h with
  | or h => exact ih.tier .and _ _ _ h hafter
  | and h => exact ih.tier .equality _ _ _ h hafter
  | equality h => exact ih.tier .comparison _ _ _ h hafter
  | comparison h => exact ih.tier .term _ _ _ h hafter
  | term h => exact ih.tier .factor _ _ _ h hafter
  | factor h => exact ih.unary _ _ _ h hafter

theorem tier_complete (t : Tier) : Complete (Level t) (tierStrength t) (tier (depth + 1) t) := by
  intro ts e after h hafter
  rw [tier]
  cases h with
  | mk ho hops =>
    refine .bind (.weaken (operand_complete ih t _ _ _ ho (hops.pull_append hafter))
      hops.permitted_left) (.total fun m hm => ?_)
    rw [List.length_append] at hm
    exact operators_complete (operand_complete ih t) hops m after (by omega) hafter

omit ih in
theorem refuses_unaryOp? {ts : List Token} (h : FirstIn startsOperand ts) : Refuses unaryOp? ts := by
  rintro t rest rfl
  unfold unaryOp?
  split
  · rename_i hk
    exact absurd ⟨t, rest, rfl, hk⟩ (h.not_startsWith rfl)
  · rename_i hk
    exact absurd ⟨t, rest, rfl, hk⟩ (h.not_startsWith rfl)
  · rfl

theorem unary_complete : Complete Unary 9 (unary (depth + 1)) := by
  intro ts e after h hafter
  rw [unary]
  cases h with
  | not hk h =>
    refine .acceptMap_some (by rw [unaryOp?, hk])
      (.bindPure (.weaken (ih.unary _ _ _ h hafter) fun hP => ?_))
    rwa [Expr.Permitted] at hP
  | negate hk h =>
    refine .acceptMap_some (by rw [unaryOp?, hk])
      (.bindPure (.weaken (ih.unary _ _ _ h hafter) fun hP => ?_))
    rwa [Expr.Permitted] at hP
  | postfixed h =>
    exact .acceptMap_none (refuses_unaryOp? (h.first.append after)) (ih.postfixed _ _ _ h hafter)

theorem postfixed_complete : Complete Postfixed 9 (postfixed (depth + 1)) := by
  intro ts e after h hafter
  rw [postfixed]
  cases h with
  | mk hp hs =>
    refine .bind (.weaken (ih.primary _ _ _ hp (hs.pull_append hafter)) hs.permitted_left)
      (.total fun m hm => ?_)
    rw [List.length_append] at hm
    exact suffixes_complete ih hs m after (by omega) hafter

omit ih in
theorem not_startsWith_expression {kind : Token.Kind} {ts : List Token} {e : Expr}
    (h : Assignment ts e) (hk : startsExpression kind = false) (rest : List Token) :
    ¬StartsWith kind (ts ++ rest) :=
  (h.first.append rest).not_startsWith hk

/-- Expressions with commas between them, before a closing token. -/
theorem expressions_complete {fine : Prop} {close : Token.Kind} {before : Nat → ParseM Unit}
    {B : Nat → Prop} {ts : List Token} {items : List Expr} {t : Token} (after : List Token)
    (hbefore : ∀ fine count after, (fine → B count) → Delivers True fine (before count) [] after ())
    (h : Items Assignment ts items) (ht : t.kind = close) (hfirst : startsExpression close = false)
    (hpull : strength close = 0) (hkind : close ≠ .comma)
    (hfine : fine → Expr.AllPermitted items ∧ ∀ i < items.length, B i) :
    Delivers True fine (itemsUntil close before (expression depth)) ts (t :: after) items := by
  refine .weaken (.itemsUntil (P := Expr.Permitted) (F := fun after => pull after < 1) hbefore
    ih.expression ?_ (fun ts e rest hG => not_startsWith_expression hG hfirst rest) h
    ⟨t, after, rfl, ht⟩ ?_ hkind) fun hf => ?_
  · exact fun comma rest hcomma => pull_lt_of_kind hcomma rfl
  · exact pull_lt_of_kind ht hpull
  · exact ⟨(Expr.allPermitted_iff items).mp (hfine hf).1, (hfine hf).2⟩

theorem arguments_complete (callee : Expr) (ts : List Token) (items : List Expr) (close : Token)
    (after : List Token) (h : Items Assignment ts items) (hclose : close.kind = .rightParen) :
    Delivers True (items.length ≤ maxArguments ∧ Expr.AllPermitted items) (arguments (depth + 1) callee)
      (ts ++ [close]) after (.call callee close.place items) := by
  rw [arguments]
  refine .bind (expressions_complete ih after (B := fun i => i < maxArguments)
    (fun _ _ _ himp => .limitCount himp) h hclose (by decide) (by decide) (by decide) ?_)
    (.bindPure (.expect hclose))
  exact fun hf => ⟨hf.2, fun i hi => Nat.lt_of_lt_of_le hi hf.1⟩

theorem index_complete (collection : Expr) (bracket : Place) (ts : List Token) (key : Expr)
    (close : Token) (after : List Token) (h : Assignment ts key) (hclose : close.kind = .rightSquare) :
    Delivers True key.Permitted (subscript (depth + 1) collection bracket) (ts ++ [close]) after
      (.index collection bracket key) := by
  have behindKey : pull ([close] ++ after) < 1 := pull_lt_of_kind hclose rfl
  have noColon : ¬StartsWith .colon ([close] ++ after) := not_startsWith_cons (by rw [hclose]; decide)
  rw [subscript]
  exact .bind (ih.expression _ _ _ h behindKey) (.accepted_no noColon (.bindPure (.expect hclose)))

theorem slice_complete (collection : Expr) (bracket : Place) (ts : List Token) (first : Expr)
    (colon : Token) (us : List Token) (last : Expr) (close : Token) (after : List Token)
    (hfirst : Assignment ts first) (hcolon : colon.kind = .colon) (hlast : Assignment us last)
    (hclose : close.kind = .rightSquare) :
    Delivers True (first.Permitted ∧ last.Permitted) (subscript (depth + 1) collection bracket)
      (ts ++ colon :: (us ++ [close])) after (.slice collection bracket first last) := by
  have behindFirst : pull ((colon :: (us ++ [close])) ++ after) < 1 := pull_lt_of_kind hcolon rfl
  have behindLast : pull ([close] ++ after) < 1 := pull_lt_of_kind hclose rfl
  rw [subscript]
  exact .bind (.weaken (ih.expression _ _ _ hfirst behindFirst) And.left)
    (.accepted_yes hcolon (.bind (.weaken (ih.expression _ _ _ hlast behindLast) And.right)
      (.bindPure (.expect hclose))))

theorem mapEntries_complete (ts : List Token) (entries : List (Expr × Expr)) (close : Token)
    (after : List Token) (h : Items MapEntry ts entries) (hclose : close.kind = .rightBrace) :
    Delivers True (Expr.EntriesPermitted entries) (mapEntries (depth + 1)) (ts ++ [close]) after
      (.map entries) := by
  rw [mapEntries]
  refine .bind (.weaken (.itemsUntil (B := fun _ => True) (G := MapEntry)
    (P := fun e : Expr × Expr => e.1.Permitted ∧ e.2.Permitted)
    (F := fun after => pull after < 1) (fun _ _ _ _ => .pure ()) ?entry ?comma ?first h
    ⟨close, after, rfl, hclose⟩ ?follow (by decide)) ?fine) (.bindPure (.expect hclose))
  case entry =>
    rintro ts entry after ⟨hkey, hcolon, hvalue⟩ hafter
    rename_i colon ks vs key value
    have behindKey : pull ((colon :: vs) ++ after) < 1 := pull_lt_of_kind hcolon rfl
    exact .bind (.weaken (ih.expression _ _ _ hkey behindKey) And.left)
      (.expecting hcolon (.bindPure (.weaken (ih.expression _ _ _ hvalue hafter) And.right)))
  case comma => exact fun comma rest hcomma => pull_lt_of_kind hcomma rfl
  case first =>
    exact fun ts e rest hG => (hG.first.append rest).not_startsWith rfl
  case follow => exact pull_lt_of_kind hclose rfl
  case fine =>
    exact fun hf => ⟨(Expr.entriesPermitted_iff entries).mp hf, fun _ _ => trivial⟩

omit ih in
/-- A constant is the only operand that the table of constants knows. -/
theorem literal?_eq_none {t : Token} (h : t.kind ∈ [Token.Kind.identifier, .leftParen, .leftSquare,
    .leftBrace]) : literal? t = none := by
  unfold literal?
  split
  all_goals first
    | rfl
    | (rename_i hk; rw [hk] at h; exact absurd h (by decide))

omit ih in
theorem refuses_literal? {t : Token} {rest : List Token} (h : t.kind ∈ [Token.Kind.identifier,
    .leftParen, .leftSquare, .leftBrace]) : Refuses literal? (t :: rest) := by
  rintro u us ⟨⟩
  exact literal?_eq_none h

omit ih in
/-- A list of names, all but the last of which are namespaces. -/
theorem nameExpr_eq_qualified {first : Lexeme} {more spaces : List Lexeme} {name : Lexeme}
    (h : first :: more = spaces ++ [name]) (hne : spaces ≠ []) :
    nameExpr first more = .qualified spaces name := by
  cases spaces with
  | nil => exact absurd rfl hne
  | cons space spaces =>
    rw [List.cons_append] at h
    obtain ⟨rfl, rfl⟩ := List.cons.inj h
    rw [nameExpr, List.getLast?_concat, List.dropLast_concat]

theorem primary_complete : Complete Primary 10 (primary (depth + 1)) := by
  intro ts e after h hafter
  rw [primary]
  cases h with
  | literal h => exact .acceptMap_some (literal?_eq_some.mpr h) (.pure _)
  | @name t hk =>
    have noMore : ¬StartsWith .doubleColon after := not_startsWith_of_pull hafter
    refine .acceptMap_none (refuses_literal? (by rw [hk]; decide)) (.accept_some hk (.total fun m _ => ?_))
    refine .bindPure (a := []) ?_
    cases m with
    | zero => exact .pure []
    | succ m => exact .accepted_no noMore (.pure [])
  | @qualified ts spaces name hpath hne =>
    generalize hnames : spaces ++ [name] = names at hpath
    cases hpath with
    | one hk =>
      -- a single name has no namespace
      have short := congrArg List.length hnames
      rw [List.length_append, List.length_singleton, List.length_singleton] at short
      exact absurd (List.length_eq_zero_iff.mp (by omega)) hne
    | @more t separator rest names hk hsep hrest =>
      rw [← nameExpr_eq_qualified hnames.symm hne]
      refine .acceptMap_none (refuses_literal? (by rw [hk]; decide)) (.accept_some hk (.total fun m hm => ?_))
      rw [List.length_append, List.length_cons] at hm
      exact .bindPure (qualifiers_complete hrest m separator after (by omega) hsep hafter)
  | @group opening close ts e hk h hclose =>
    have noName : ¬StartsWith .identifier (opening :: (ts ++ [close]) ++ after) :=
      not_startsWith_cons (by rw [hk]; decide)
    have follows : pull ([close] ++ after) < 1 := pull_lt_of_kind hclose rfl
    refine .acceptMap_none (refuses_literal? (by rw [hk]; decide)) (.accept_none noName (.accepted_yes hk
      (.bind (.weaken (ih.expression _ _ _ h follows) fun hP => ?_) (.bindPure (.expect hclose)))))
    rwa [Expr.Permitted] at hP
  | @list opening close ts items hk h hclose =>
    have noName : ¬StartsWith .identifier (opening :: (ts ++ [close]) ++ after) :=
      not_startsWith_cons (by rw [hk]; decide)
    have noParen : ¬StartsWith .leftParen (opening :: (ts ++ [close]) ++ after) :=
      not_startsWith_cons (by rw [hk]; decide)
    refine .acceptMap_none (refuses_literal? (by rw [hk]; decide)) (.accept_none noName (.accepted_no noParen
      (.accepted_yes hk (.bind (expressions_complete ih after (B := fun _ => True)
        (fun _ _ _ _ => .pure ()) h hclose (by decide) (by decide) (by decide) fun hP => ?_)
        (.bindPure (.expect hclose))))))
    rw [Expr.Permitted] at hP
    exact ⟨hP, fun _ _ => trivial⟩
  | @map opening close ts entries hk h hclose =>
    have noName : ¬StartsWith .identifier (opening :: (ts ++ [close]) ++ after) :=
      not_startsWith_cons (by rw [hk]; decide)
    have noParen : ¬StartsWith .leftParen (opening :: (ts ++ [close]) ++ after) :=
      not_startsWith_cons (by rw [hk]; decide)
    have noSquare : ¬StartsWith .leftSquare (opening :: (ts ++ [close]) ++ after) :=
      not_startsWith_cons (by rw [hk]; decide)
    refine .acceptMap_none (refuses_literal? (by rw [hk]; decide)) (.accept_none noName (.accepted_no noParen
      (.accepted_no noSquare (.accepted_yes hk
        (.weaken (ih.mapEntries ts entries close after h hclose) fun hP => ?_)))))
    rwa [Expr.Permitted] at hP

theorem expression_complete : Complete Assignment 1 (expression (depth + 1)) := by
  rw [expression]
  exact ih.assignment

end Level

theorem expressionsComplete (depth : Nat) : ExpressionsComplete depth := by
  induction depth with
  | zero =>
    have none : ∀ {fine : Prop} {ts after : List Token} {e : Expr},
        Delivers True fine (throw .depth : ParseM Expr) ts after e := .outOfLevels trivial
    exact ⟨fun _ _ _ _ _ => none, fun _ _ _ _ _ => none, fun _ _ _ _ _ => none,
      fun _ _ _ _ _ _ => none, fun _ _ _ _ _ => none, fun _ _ _ _ _ => none,
      fun _ _ _ _ _ => none, fun _ _ _ _ _ _ _ => none, fun _ _ _ _ _ _ _ _ => none,
      fun _ _ _ _ _ _ _ _ _ _ _ _ _ => none, fun _ _ _ _ _ _ => none⟩
  | succ depth ih =>
    exact
      { expression := expression_complete ih
        assignment := assignment_complete ih
        choice := choice_complete ih
        tier := tier_complete ih
        unary := unary_complete ih
        postfixed := postfixed_complete ih
        primary := primary_complete ih
        arguments := arguments_complete ih
        index := index_complete ih
        slice := slice_complete ih
        mapEntries := mapEntries_complete ih }

/-! ## Contracts -/

/-- The kinds that may end a contract: they continue no expression and no list. -/
structure ContractEnds (ends : List Token.Kind) : Prop where
  pullsNothing : ∀ kind ∈ ends, strength kind = 0
  noComma : .comma ∉ ends

theorem clauseItems_complete {ends : List Token.Kind} {condition : ParseM Expr}
    (hcondition : Complete Assignment 1 condition) (hends : ContractEnds ends) {ts : List Token}
    {es : List Expr} {message : Option Token} (h : Conditions ts es message) :
    ∀ (rounds : Nat) (after : List Token), ts.length < rounds → EndsIn ends after →
      Delivers True (Expr.AllPermitted es) (clauseItems ends condition rounds) ts after (es, message) := by
  -- what comes behind a condition that is not the last one
  have behindComma : ∀ (comma : Token) (rest : List Token), comma.kind = .comma →
      pull (comma :: rest) < 1 ∧ ¬EndsIn ends (comma :: rest) := by
    intro comma rest hcomma
    refine ⟨pull_lt_of_kind hcomma rfl, ?_⟩
    rintro ⟨kind, hmem, t, ts, ht, rfl⟩
    cases ht
    exact hends.noComma (hcomma ▸ hmem)
  induction h with
  | @last ts e he hlone =>
    intro rounds after hrounds hafter
    obtain ⟨rounds, rfl⟩ : ∃ k, rounds = k + 1 := ⟨rounds - 1, by omega⟩
    -- a text alone in last place would be taken for a message, and the grammar excludes it
    have noMessage : ¬MessageNext ends (ts ++ after) :=
      he.not_messageNext hends.pullsNothing fun hl => absurd hl hlone
    have noComma : ¬StartsWith .comma after := hafter.not_startsWith hends.noComma
    have follows : pull after < 1 := by rw [hafter.pull_eq_zero hends.pullsNothing]; decide
    exact .bindStill (.messageNext_no noMessage)
      (.bindLast (.weaken (hcondition _ _ _ he follows) And.left) (.accepted_no noComma (.pure _)))
  | @message comma text ts e he hcomma htext =>
    intro rounds after hrounds hafter
    rw [List.length_append, List.length_cons, List.length_singleton] at hrounds
    obtain ⟨rounds, rfl⟩ : ∃ k, rounds = k + 2 := ⟨rounds - 2, by omega⟩
    obtain ⟨follows, goesOn⟩ := behindComma comma (text :: after) hcomma
    have noMessage : ¬MessageNext ends ((ts ++ [comma, text]) ++ after) := by
      rw [List.append_assoc]
      exact he.not_messageNext hends.pullsNothing fun _ => goesOn
    have isMessage : MessageNext ends (text :: after) := ⟨text, after, rfl, htext, hafter⟩
    exact .bindStill (.messageNext_no noMessage)
      (.bind (.weaken (hcondition _ _ _ he follows) And.left)
        (.accepted_yes hcomma (.bindLast
          (.bindStill (.messageNext_yes isMessage) (.accept_some htext (.pure _))) (.pure _))))
  | @more comma ts rest e es message he hcomma _ ih =>
    intro rounds after hrounds hafter
    rw [List.length_append, List.length_cons] at hrounds
    obtain ⟨rounds, rfl⟩ : ∃ k, rounds = k + 1 := ⟨rounds - 1, by omega⟩
    obtain ⟨follows, goesOn⟩ := behindComma comma (rest ++ after) hcomma
    have noMessage : ¬MessageNext ends ((ts ++ comma :: rest) ++ after) := by
      rw [List.append_assoc]
      exact he.not_messageNext hends.pullsNothing fun _ => goesOn
    exact .bindStill (.messageNext_no noMessage)
      (.bind (.weaken (hcondition _ _ _ he follows) And.left)
        (.accepted_yes hcomma (.bindLast (.weaken (ih rounds after (by omega) hafter) And.right)
          (.pure _))))

theorem clauses_complete {ends : List Token.Kind} (hends : ContractEnds ends) {ts after : List Token}
    {found : Clauses} (depth : Nat) (h : ContractClauses ts found) (hafter : EndsIn ends after) :
    Delivers True found.Permitted (clauses ends depth) ts after found := by
  cases depth with
  | zero => exact .outOfLevels trivial
  | succ depth =>
    rw [clauses]
    cases h with
    | @mk conditions message h =>
      refine .total fun m hm => ?_
      rw [List.length_append] at hm
      refine .bindLast (clauseItems_complete (expressionsComplete depth).expression hends h (m + 1)
        after (by omega) hafter) ?_
      cases h with
      | last | message | more => exact .pure _

theorem functionClauses_complete {ends : List Token.Kind} (hends : ContractEnds ends)
    {kind : Token.Kind} {word : String} {ts after : List Token} {found : Clauses} (depth : Nat)
    (h : FunctionClauses kind ts found) (hafter : EndsIn ends after) (hkind : kind ∉ ends) :
    Delivers True found.Permitted (functionClauses kind word ends depth) ts after found := by
  rw [functionClauses]
  cases h with
  | none => exact .accepted_no (hafter.not_startsWith hkind) (.pure _)
  | some hword hcolon h =>
    exact .accepted_yes hword (.expecting hcolon (clauses_complete hends depth h hafter))

/-! ## Statements -/

theorem varDeclaration_complete {ts after : List Token} {s : Stmt} (depth : Nat)
    (inLoop inFunction : Bool) (h : VarDeclaration ts s) :
    Delivers True (s.Permitted inLoop inFunction) (varDeclaration depth) ts after s := by
  cases depth with
  | zero => exact .outOfLevels trivial
  | succ depth =>
    rw [varDeclaration]
    cases h with
    | @mk name semicolon ts value hname hvalue hsemi =>
      refine .expecting hname (.bind (a := value) ?_ (.bindPure (.expect hsemi)))
      cases hvalue with
      | none => exact .following_none (not_startsWith_cons (by rw [hsemi]; decide))
      | some h =>
        obtain ⟨hk, hG⟩ := h
        refine .following_some hk (.weaken ((expressionsComplete depth).expression _ _ _ hG
          (pull_lt_of_kind hsemi rfl)) fun hP => ?_)
        rwa [Stmt.Permitted] at hP

theorem expressionStatement_complete {ts after : List Token} {s : Stmt} (depth : Nat)
    (inLoop inFunction : Bool) (h : ExpressionStatement ts s) :
    Delivers True (s.Permitted inLoop inFunction) (expressionStatement depth) ts after s := by
  cases depth with
  | zero => exact .outOfLevels trivial
  | succ depth =>
    rw [expressionStatement]
    cases h with
    | mk hG hsemi =>
      refine .bind (.weaken ((expressionsComplete depth).expression _ _ _ hG
        (pull_lt_of_kind hsemi rfl)) fun hP => ?_) (.bindPure (.expect hsemi))
      rwa [Stmt.Permitted] at hP

/-- An expression that may be missing, before a token that ends it. -/
theorem itemUnless_complete {fine : Prop} {depth : Nat} {close : Token.Kind} {ts : List Token}
    {r : Option Expr} {t : Token} (after : List Token) (h : Optional Expression ts r)
    (ht : t.kind = close) (hfirst : startsExpression close = false) (hpull : strength close = 0)
    (hfine : fine → Expr.OptionPermitted r) :
    Delivers True fine (itemUnless close (expression depth)) ts (t :: after) r := by
  cases h with
  | none => exact .itemUnless_none ⟨t, after, rfl, ht⟩
  | some hG =>
    exact .itemUnless_some (not_startsWith_expression hG hfirst _)
      (.weaken ((expressionsComplete depth).expression _ _ _ hG (pull_lt_of_kind ht hpull)) hfine)

theorem loopStart_complete {ts after : List Token} {r : Option Stmt} (depth : Nat)
    (inLoop inFunction : Bool) (h : LoopStart ts r) :
    Delivers True (Stmt.OptionPermitted inLoop inFunction r) (loopStart depth) ts after r := by
  rw [loopStart]
  cases h with
  | none hk => exact .accepted_yes hk (.pure none)
  | var hk h =>
    exact .skipAccepted (by rw [hk]; decide)
      (.accepted_yes hk (.bindPure (varDeclaration_complete depth inLoop inFunction h)))
  | expression h =>
    exact .accepted_no ((h.first.append after).not_startsWith rfl)
      (.accepted_no ((h.first.append after).not_startsWith rfl)
        (.bindPure (expressionStatement_complete depth inLoop inFunction h)))

/-- Names are read as tokens, of which only the lexemes are kept. -/
theorem names_of_identifiers {ts : List Token} {names : List Lexeme} (h : Items Identifier ts names) :
    ∃ tokens : List Token, names = tokens.map Token.lexeme ∧
      Items (fun ts t => ts = [t] ∧ t.kind = .identifier) ts tokens := by
  cases h with
  | none => exact ⟨[], rfl, .none⟩
  | some h =>
    suffices found : ∃ tokens : List Token, names = tokens.map Token.lexeme ∧
        Separated (fun ts t => ts = [t] ∧ t.kind = .identifier) ts tokens by
      obtain ⟨tokens, hnames, htokens⟩ := found
      exact ⟨tokens, hnames, .some htokens⟩
    induction h with
    | one h =>
      obtain ⟨hk⟩ := h
      exact ⟨[_], rfl, .one ⟨rfl, hk⟩⟩
    | more h hcomma _ ih =>
      obtain ⟨hk⟩ := h
      obtain ⟨tokens, rfl, htokens⟩ := ih
      exact ⟨_ :: tokens, rfl, .more ⟨rfl, hk⟩ hcomma htokens⟩

theorem signature_complete {ts after : List Token} {sig : Signature} {opening : Token} (depth : Nat)
    (h : FunctionSignature ts sig) (hopen : opening.kind = .leftBrace) :
    Delivers True sig.Permitted (signature depth) (ts ++ [opening]) after sig := by
  rw [signature]
  cases h with
  | @mk name paren close ps bs as parameters before post hname hparen hps hclose hbefore hafter =>
    obtain ⟨tokens, rfl, htokens⟩ := names_of_identifiers hps
    have endsAfter : EndsIn [.leftBrace] (opening :: after) :=
      ⟨.leftBrace, List.mem_singleton.mpr rfl, opening, after, rfl, hopen⟩
    -- the precondition ends at the postcondition if there is one, else at the body
    have endsBefore : EndsIn [.kwPostcondition, .leftBrace] ((as ++ [opening]) ++ after) := by
      cases hafter with
      | none =>
        exact ⟨.leftBrace, List.mem_cons_of_mem _ (List.mem_singleton.mpr rfl), opening, after, rfl,
          hopen⟩
      | some hword _ _ => exact ⟨.kwPostcondition, List.mem_cons_self, _, _, rfl, hword⟩
    have shape : name :: paren :: (ps ++ close :: (bs ++ as)) ++ [opening]
        = name :: paren :: (ps ++ close :: (bs ++ (as ++ [opening]))) := by
      simp only [List.cons_append, List.append_assoc]
    rw [shape]
    refine .expecting hname (.expecting hparen (.bind (.weaken (.itemsUntil
      (B := fun i => i < maxArguments) (G := fun ts t => ts = [t] ∧ t.kind = .identifier)
      (P := fun _ => True) (F := fun _ => True) (fun _ _ _ himp => .limitCount himp) ?name
      (fun _ _ _ => trivial) ?first htokens ⟨close, _, rfl, hclose⟩ trivial (by decide)) ?count)
      (.expecting hclose (.bind (.weaken (functionClauses_complete ⟨by decide, by decide⟩ depth
        hbefore endsBefore (by decide)) fun hP => hP.2.1)
      (.bind (.weaken (functionClauses_complete ⟨by decide, by decide⟩ depth hafter endsAfter
        (by decide)) fun hP => hP.2.2) (.bindPure (.expect hopen)))))))
    case name =>
      rintro ts t after ⟨rfl, hk⟩ -
      exact .expect hk
    case first =>
      rintro ts t rest ⟨rfl, hk⟩
      exact not_startsWith_cons (by rw [hk]; decide)
    case count =>
      intro hP
      have few := hP.1
      rw [List.length_map] at few
      exact ⟨fun _ _ => trivial, fun i hi => Nat.lt_of_lt_of_le hi few⟩

/-- The productions of statements at one number of levels. A statement that could take an `else`
is read only where none follows. -/
structure StatementsComplete (depth : Nat) : Prop where
  declaration : ∀ (context : Context) ts s after, context.keepTests = true → Declaration ts s →
    ¬StartsWith .kwElse after →
    Delivers True (s.Permitted context.inLoop context.inFunction) (declaration context depth) ts after
      (some s)
  function : ∀ (context : Context) ss sig (opening : Token) ts body (close : Token) after,
    context.keepTests = true → FunctionSignature ss sig → opening.kind = .leftBrace →
    Declarations ts body → close.kind = .rightBrace →
    Delivers True ((Stmt.function sig body).Permitted context.inLoop context.inFunction)
      (function context depth) (ss ++ opening :: (ts ++ [close])) after (.function sig body)
  testStatement : ∀ (context : Context) (name : Token) takesElse ts s after,
    context.keepTests = true → name.kind = .text → Statement takesElse ts s →
    (takesElse = true → ¬StartsWith .kwElse after) →
    Delivers True ((Stmt.test name.content name.place s).Permitted context.inLoop context.inFunction)
      (testStatement context depth) (name :: ts) after (.test name.content name.place s)
  statement : ∀ (context : Context) takesElse ts s after, context.keepTests = true →
    Statement takesElse ts s → (takesElse = true → ¬StartsWith .kwElse after) →
    Delivers True (s.Permitted context.inLoop context.inFunction) (statement context depth) ts after s
  block : ∀ (context : Context) ts body (close : Token) after, context.keepTests = true →
    Declarations ts body → close.kind = .rightBrace →
    Delivers True (Stmt.AllPermitted context.inLoop context.inFunction body) (block context depth)
      (ts ++ [close]) after body
  branch : ∀ (context : Context) (opening : Token) cs c (close : Token) takesElse ts s after,
    context.keepTests = true → opening.kind = .leftParen → Expression cs c →
    close.kind = .rightParen → Statement takesElse ts s → ¬StartsWith .kwElse after →
    Delivers True ((Stmt.branch c s none).Permitted context.inLoop context.inFunction)
      (branch context depth) (opening :: (cs ++ close :: ts)) after (.branch c s none)
  branchElse : ∀ (context : Context) (opening : Token) cs c (close : Token) ts s (other : Token)
    takesElse us u after,
    context.keepTests = true → opening.kind = .leftParen → Expression cs c →
    close.kind = .rightParen → Statement false ts s → other.kind = .kwElse →
    Statement takesElse us u → (takesElse = true → ¬StartsWith .kwElse after) →
    Delivers True ((Stmt.branch c s (some u)).Permitted context.inLoop context.inFunction)
      (Parser.branch context depth) (opening :: (cs ++ close :: (ts ++ other :: us))) after
      (.branch c s (some u))
  loopBody : ∀ (context : Context) takesElse ts s after, context.keepTests = true →
    Statement takesElse ts s → (takesElse = true → ¬StartsWith .kwElse after) →
    Delivers True (s.Permitted true context.inFunction) (loopBody context depth) ts after s
  whileLoop : ∀ (context : Context) (opening : Token) cs c (close : Token) takesElse ts s after,
    context.keepTests = true → opening.kind = .leftParen → Expression cs c →
    close.kind = .rightParen → Statement takesElse ts s →
    (takesElse = true → ¬StartsWith .kwElse after) →
    Delivers True ((Stmt.loop c s).Permitted context.inLoop context.inFunction)
      (whileLoop context depth) (opening :: (cs ++ close :: ts)) after (.loop c s)
  forStatement : ∀ (context : Context) (opening : Token) is start cs condition (semicolon : Token)
    us step (close : Token) takesElse ts s after,
    context.keepTests = true → opening.kind = .leftParen → LoopStart is start →
    Optional Expression cs condition → semicolon.kind = .semicolon →
    Optional Expression us step → close.kind = .rightParen → Statement takesElse ts s →
    (takesElse = true → ¬StartsWith .kwElse after) →
    Delivers True ((countingLoop start condition step s).Permitted context.inLoop context.inFunction)
      (forStatement context depth) (opening :: (is ++ (cs ++ semicolon :: (us ++ close :: ts)))) after
      (countingLoop start condition step s)

theorem declarations_not_startsWith {ts after : List Token} {body : List Stmt}
    {kind : Token.Kind} (h : Declarations ts body) (hk : opensDeclaration kind = false)
    (hafter : ¬StartsWith kind after) : ¬StartsWith kind (ts ++ after) := by
  cases h with
  | done => exact hafter
  | more h _ =>
    rw [List.append_assoc]
    exact (h.first.append _).not_startsWith hk

/-- Statements before a closing brace. -/
theorem statementsUntilBrace_complete {one : ParseM (Option Stmt)} {inLoop inFunction : Bool}
    (hone : ∀ ts s after, Declaration ts s → ¬StartsWith .kwElse after →
      Delivers True (s.Permitted inLoop inFunction) one ts after (some s))
    {ts : List Token} {body : List Stmt} :
    Declarations ts body → ∀ rounds after, ts.length ≤ rounds → StartsWith .rightBrace after →
      Delivers True (Stmt.AllPermitted inLoop inFunction body) (statementsUntilBrace one rounds) ts after
        body
  | .done, 0, _, _, _ => .pure []
  | .done, rounds + 1, after, _, hafter => by
    obtain ⟨brace, rest, rfl, hbrace⟩ := hafter
    refine .bindStill .current? ?_
    show Delivers True _ (if brace.kind == .rightBrace then _ else _) _ _ _
    rw [hbrace]
    exact .pure []
  | @Declarations.more _ rest s _ h hrest, rounds, after, hrounds, hafter => by
    obtain ⟨t, us, rfl, ht⟩ := h.first
    rw [List.length_append, List.length_cons] at hrounds
    obtain ⟨rounds, rfl⟩ : ∃ k, rounds = k + 1 := ⟨rounds - 1, by omega⟩
    have noBrace : ¬(t.kind == .rightBrace) = true := by
      rw [beq_iff_eq]
      intro hk
      rw [hk] at ht
      cases ht
    -- neither a declaration nor the brace can be taken for an `else` of what comes before
    have noElse : ¬StartsWith .kwElse (rest ++ after) := by
      refine declarations_not_startsWith hrest rfl ?_
      obtain ⟨brace, more, rfl, hbrace⟩ := hafter
      exact not_startsWith_cons (by rw [hbrace]; decide)
    refine .bindStill .current? ?_
    show Delivers True _ (if t.kind == .rightBrace then _ else _) _ _ _
    rw [if_neg noBrace]
    exact .bind (.weaken (hone _ s _ h noElse) And.left)
      (.bindPure (.weaken (statementsUntilBrace_complete hone hrest rounds after (by omega) hafter)
        And.right))

section Level

variable {depth : Nat} (ih : StatementsComplete depth) (context : Context)
include ih

theorem block_complete (ts : List Token) (body : List Stmt) (close : Token) (after : List Token)
    (keeps : context.keepTests = true) (h : Declarations ts body) (hclose : close.kind = .rightBrace) :
    Delivers True (Stmt.AllPermitted context.inLoop context.inFunction body) (block context (depth + 1))
      (ts ++ [close]) after body := by
  rw [block]
  refine .total fun m hm => ?_
  rw [List.length_append, List.length_append] at hm
  exact .bind (statementsUntilBrace_complete
    (fun ts s after hG hno => ih.declaration context ts s after keeps hG hno) h m _ (by omega)
    ⟨close, after, rfl, hclose⟩) (.bindPure (.expect hclose))

theorem function_complete (ss : List Token) (sig : Signature) (opening : Token) (ts : List Token)
    (body : List Stmt) (close : Token) (after : List Token) (keeps : context.keepTests = true)
    (hsig : FunctionSignature ss sig) (hopen : opening.kind = .leftBrace)
    (hbody : Declarations ts body) (hclose : close.kind = .rightBrace) :
    Delivers True ((Stmt.function sig body).Permitted context.inLoop context.inFunction)
      (function context (depth + 1)) (ss ++ opening :: (ts ++ [close])) after
      (.function sig body) := by
  have shape : ss ++ opening :: (ts ++ [close]) = (ss ++ [opening]) ++ (ts ++ [close]) := by
    rw [List.append_assoc, List.singleton_append]
  rw [function, shape]
  refine .bind (.weaken (signature_complete depth hsig hopen) fun hP => ?_)
    (.bindPure (.weaken (ih.block { context with inLoop := false, inFunction := true } ts body close
      after keeps hbody hclose) fun hP => ?_))
  all_goals rw [Stmt.Permitted] at hP
  · exact hP.1
  · exact hP.2

theorem testStatement_complete (name : Token) (takesElse : Bool) (ts : List Token) (s : Stmt)
    (after : List Token) (keeps : context.keepTests = true) (hname : name.kind = .text)
    (h : Statement takesElse ts s) (helse : takesElse = true → ¬StartsWith .kwElse after) :
    Delivers True ((Stmt.test name.content name.place s).Permitted context.inLoop context.inFunction)
      (testStatement context (depth + 1)) (name :: ts) after (.test name.content name.place s) := by
  rw [testStatement]
  refine .expecting hname (.bindPure (.weaken (ih.statement
    { context with inLoop := false, inFunction := false } takesElse ts s after keeps h helse)
    fun hP => ?_))
  rwa [Stmt.Permitted] at hP

theorem loopBody_complete (takesElse : Bool) (ts : List Token) (s : Stmt) (after : List Token)
    (keeps : context.keepTests = true) (h : Statement takesElse ts s)
    (helse : takesElse = true → ¬StartsWith .kwElse after) :
    Delivers True (s.Permitted true context.inFunction) (loopBody context (depth + 1)) ts after s := by
  rw [loopBody]
  exact ih.statement { context with inLoop := true } takesElse ts s after keeps h helse

theorem whileLoop_complete (opening : Token) (cs : List Token) (c : Expr) (close : Token)
    (takesElse : Bool) (ts : List Token) (s : Stmt) (after : List Token)
    (keeps : context.keepTests = true) (hopen : opening.kind = .leftParen) (hc : Expression cs c)
    (hclose : close.kind = .rightParen) (h : Statement takesElse ts s)
    (helse : takesElse = true → ¬StartsWith .kwElse after) :
    Delivers True ((Stmt.loop c s).Permitted context.inLoop context.inFunction)
      (whileLoop context (depth + 1)) (opening :: (cs ++ close :: ts)) after (.loop c s) := by
  rw [whileLoop]
  refine .expecting hopen (.bind (.weaken ((expressionsComplete depth).expression _ _ _ hc
    (pull_lt_of_kind hclose rfl)) fun hP => ?_) (.expecting hclose
    (.bindPure (.weaken (ih.loopBody context takesElse ts s after keeps h helse) fun hP => ?_))))
  all_goals rw [Stmt.Permitted] at hP
  · exact hP.1
  · exact hP.2

theorem forStatement_complete (opening : Token) (is : List Token) (start : Option Stmt)
    (cs : List Token) (condition : Option Expr) (semicolon : Token) (us : List Token)
    (step : Option Expr) (close : Token) (takesElse : Bool) (ts : List Token) (s : Stmt)
    (after : List Token) (keeps : context.keepTests = true) (hopen : opening.kind = .leftParen)
    (hstart : LoopStart is start) (hcondition : Optional Expression cs condition)
    (hsemi : semicolon.kind = .semicolon) (hstep : Optional Expression us step)
    (hclose : close.kind = .rightParen) (h : Statement takesElse ts s)
    (helse : takesElse = true → ¬StartsWith .kwElse after) :
    Delivers True ((countingLoop start condition step s).Permitted context.inLoop context.inFunction)
      (forStatement context (depth + 1)) (opening :: (is ++ (cs ++ semicolon :: (us ++ close :: ts))))
      after (countingLoop start condition step s) := by
  rw [forStatement, countingLoop_permitted_iff, ← forLoop_eq_countingLoop]
  exact .expecting hopen (.bind
    (.weaken (loopStart_complete depth context.inLoop context.inFunction hstart) And.left) (.bind
    (itemUnless_complete _ hcondition hsemi rfl rfl fun hP => hP.2.1) (.expecting hsemi (.bind
    (itemUnless_complete _ hstep hclose rfl rfl fun hP => hP.2.2.1) (.expecting hclose (.bindPure
    (.weaken (ih.loopBody context takesElse ts s after keeps h helse) fun hP => hP.2.2.2)))))))

theorem branch_complete (opening : Token) (cs : List Token) (c : Expr) (close : Token)
    (takesElse : Bool) (ts : List Token) (s : Stmt) (after : List Token)
    (keeps : context.keepTests = true) (hopen : opening.kind = .leftParen) (hc : Expression cs c)
    (hclose : close.kind = .rightParen) (h : Statement takesElse ts s)
    (helse : ¬StartsWith .kwElse after) :
    Delivers True ((Stmt.branch c s none).Permitted context.inLoop context.inFunction)
      (branch context (depth + 1)) (opening :: (cs ++ close :: ts)) after (.branch c s none) := by
  rw [branch]
  refine .expecting hopen (.bind (.weaken ((expressionsComplete depth).expression _ _ _ hc
    (pull_lt_of_kind hclose rfl)) fun hP => ?_) (.expecting hclose
    (.bindLast (.weaken (ih.statement context takesElse ts s after keeps h fun _ => helse)
      fun hP => ?_) (.bindPure (.following_none helse)))))
  all_goals rw [Stmt.Permitted] at hP
  · exact hP.1
  · exact hP.2.1

theorem branchElse_complete (opening : Token) (cs : List Token) (c : Expr) (close : Token)
    (ts : List Token) (s : Stmt) (other : Token) (takesElse : Bool) (us : List Token) (u : Stmt)
    (after : List Token) (keeps : context.keepTests = true) (hopen : opening.kind = .leftParen)
    (hc : Expression cs c) (hclose : close.kind = .rightParen) (h : Statement false ts s)
    (hother : other.kind = .kwElse) (hu : Statement takesElse us u)
    (helse : takesElse = true → ¬StartsWith .kwElse after) :
    Delivers True ((Stmt.branch c s (some u)).Permitted context.inLoop context.inFunction)
      (branch context (depth + 1)) (opening :: (cs ++ close :: (ts ++ other :: us))) after
      (.branch c s (some u)) := by
  rw [branch]
  refine .expecting hopen (.bind (.weaken ((expressionsComplete depth).expression _ _ _ hc
    (pull_lt_of_kind hclose rfl)) fun hP => ?_) (.expecting hclose
    (.bind (.weaken (ih.statement context false ts s _ keeps h fun hf => (by cases hf))
      fun hP => ?_) (.bindPure (.following_some hother
        (.weaken (ih.statement context takesElse us u after keeps hu helse) fun hP => ?_))))))
  all_goals rw [Stmt.Permitted] at hP
  · exact hP.1
  · exact hP.2.1
  · exact hP.2.2

omit ih in
theorem printStatement_complete {semicolon : Token} {ts after : List Token} {e : Expr}
    (depth : Nat) (h : Expression ts e) (hsemi : semicolon.kind = .semicolon) :
    Delivers True e.Permitted (printStatement depth) (ts ++ [semicolon]) after (.print e) := by
  cases depth with
  | zero => exact .outOfLevels trivial
  | succ depth =>
    rw [printStatement]
    exact .bind ((expressionsComplete depth).expression _ _ _ h (pull_lt_of_kind hsemi rfl))
      (.bindPure (.expect hsemi))

omit ih in
theorem yieldStatement_complete {keyword semicolon : Token} {ts after : List Token}
    {value : Option Expr} (depth : Nat) (h : Optional Expression ts value)
    (hsemi : semicolon.kind = .semicolon) :
    Delivers True (context.inFunction = true ∧ Expr.OptionPermitted value)
      (yieldStatement context keyword depth) (ts ++ [semicolon]) after
      (.yield keyword.place value) := by
  cases depth with
  | zero => exact .outOfLevels trivial
  | succ depth =>
    rw [yieldStatement]
    exact .bindStill (.complainUnless And.left) (.bind
      (itemUnless_complete _ h hsemi rfl rfl And.right) (.bindPure (.expect hsemi)))

omit ih in
theorem contractStatement_complete {kind : ContractKind} {place : Place} {colon semicolon : Token}
    {ts after : List Token} {found : Clauses} (depth : Nat) (hcolon : colon.kind = .colon)
    (h : ContractClauses ts found) (hsemi : semicolon.kind = .semicolon) :
    Delivers True found.Permitted (contractStatement kind place depth) (colon :: (ts ++ [semicolon])) after
      (.contract kind place found) := by
  cases depth with
  | zero => exact .outOfLevels trivial
  | succ depth =>
    have ends : EndsIn [.semicolon] (semicolon :: after) :=
      ⟨.semicolon, List.mem_singleton.mpr rfl, semicolon, after, rfl, hsemi⟩
    rw [contractStatement]
    exact .expecting hcolon (.bind (clauses_complete ⟨by decide, by decide⟩ depth h ends)
      (.bindPure (.expect hsemi)))

omit ih in
theorem loadStatement_complete {fine : Prop} {path semicolon : Token} {ts after : List Token}
    {space : Option Lexeme} (hpath : path.kind = .text)
    (h : Optional (Led .kwAs Identifier) ts space) (hsemi : semicolon.kind = .semicolon) :
    Delivers True fine loadStatement (path :: (ts ++ [semicolon])) after
      (.load path.content path.place space) := by
  rw [loadStatement]
  cases h with
  | none =>
    exact .expecting hpath (.bind (.following_none (not_startsWith_cons (by rw [hsemi]; decide)))
      (.bindPure (.expect hsemi)))
  | some h =>
    obtain ⟨hk, ⟨hname⟩⟩ := h
    exact .expecting hpath (.bind (.following_some hk (.expect hname)) (.bindPure (.expect hsemi)))

theorem statement_complete (takesElse : Bool) (ts : List Token) (s : Stmt) (after : List Token)
    (keeps : context.keepTests = true) (h : Statement takesElse ts s)
    (helse : takesElse = true → ¬StartsWith .kwElse after) :
    Delivers True (s.Permitted context.inLoop context.inFunction) (statement context (depth + 1)) ts after
      s := by
  rw [statement]
  cases h with
  | print hk h hsemi =>
    rw [Stmt.Permitted]
    exact .accepted_yes hk (printStatement_complete depth h hsemi)
  | block hk h hclose =>
    rw [Stmt.Permitted]
    exact .skipAccepted (by rw [hk]; decide) <|
      .accepted_yes hk (.bindPure (ih.block context _ _ _ after keeps h hclose))
  | branch hk hopen hc hclose h =>
    exact .skipAccepted (by rw [hk]; decide) <| .skipAccepted (by rw [hk]; decide) <|
      .accepted_yes hk (ih.branch context _ _ _ _ _ _ _ after keeps hopen hc hclose h (helse rfl))
  | branchElse hk hopen hc hclose h hother hu =>
    exact .skipAccepted (by rw [hk]; decide) <| .skipAccepted (by rw [hk]; decide) <|
      .accepted_yes hk
        (ih.branchElse context _ _ _ _ _ _ _ _ _ _ after keeps hopen hc hclose h hother hu helse)
  | loop hk hopen hc hclose h =>
    exact .skipAccepted (by rw [hk]; decide) <| .skipAccepted (by rw [hk]; decide) <|
      .skipAccepted (by rw [hk]; decide) <|
      .accepted_yes hk (ih.whileLoop context _ _ _ _ _ _ _ after keeps hopen hc hclose h helse)
  | counting hk hopen hstart hcondition hsemi hstep hclose h =>
    exact .skipAccepted (by rw [hk]; decide) <| .skipAccepted (by rw [hk]; decide) <|
      .skipAccepted (by rw [hk]; decide) <| .skipAccepted (by rw [hk]; decide) <|
      .accepted_yes hk (ih.forStatement context _ _ _ _ _ _ _ _ _ _ _ _ after keeps hopen hstart
        hcondition hsemi hstep hclose h helse)
  | leave hk hsemi =>
    rw [Stmt.Permitted]
    exact .skipAccepted (by rw [hk]; decide) <| .skipAccepted (by rw [hk]; decide) <|
      .skipAccepted (by rw [hk]; decide) <| .skipAccepted (by rw [hk]; decide) <|
      .skipAccepted (by rw [hk]; decide) <|
      .accept_some hk (.expecting hsemi (.bindPure (.complainUnless id)))
  | yield hk h hsemi =>
    rw [Stmt.Permitted]
    exact .skipAccepted (by rw [hk]; decide) <| .skipAccepted (by rw [hk]; decide) <|
      .skipAccepted (by rw [hk]; decide) <| .skipAccepted (by rw [hk]; decide) <|
      .skipAccepted (by rw [hk]; decide) <| .skipAccept (by rw [hk]; decide) <|
      .accept_some hk (yieldStatement_complete context depth h hsemi)
  | contract hword hcolon h hsemi =>
    rw [Stmt.Permitted]
    cases hword with
    | assertion hk =>
      exact .skipAccepted (by rw [hk]; decide) <| .skipAccepted (by rw [hk]; decide) <|
        .skipAccepted (by rw [hk]; decide) <| .skipAccepted (by rw [hk]; decide) <|
        .skipAccepted (by rw [hk]; decide) <| .skipAccept (by rw [hk]; decide) <|
        .skipAccept (by rw [hk]; decide) <|
        .accept_some hk (contractStatement_complete depth hcolon h hsemi)
    | check hk =>
      exact .skipAccepted (by rw [hk]; decide) <| .skipAccepted (by rw [hk]; decide) <|
        .skipAccepted (by rw [hk]; decide) <| .skipAccepted (by rw [hk]; decide) <|
        .skipAccepted (by rw [hk]; decide) <| .skipAccept (by rw [hk]; decide) <|
        .skipAccept (by rw [hk]; decide) <| .skipAccept (by rw [hk]; decide) <|
        .accept_some hk (contractStatement_complete depth hcolon h hsemi)
  | load hk hpath h hsemi =>
    exact .skipAccepted (by rw [hk]; decide) <| .skipAccepted (by rw [hk]; decide) <|
      .skipAccepted (by rw [hk]; decide) <| .skipAccepted (by rw [hk]; decide) <|
      .skipAccepted (by rw [hk]; decide) <| .skipAccept (by rw [hk]; decide) <|
      .skipAccept (by rw [hk]; decide) <| .skipAccept (by rw [hk]; decide) <|
      .skipAccept (by rw [hk]; decide) <| .accepted_yes hk (loadStatement_complete hpath h hsemi)
  | expression h hbrace =>
    -- no expression starts with a keyword of a statement; a brace is excluded by the grammar
    have other : ∀ kind, startsExpression kind = false → ¬StartsWith kind (ts ++ after) :=
      fun _ hk => (h.first.append after).not_startsWith hk
    have noBrace : ¬StartsWith .leftBrace (ts ++ after) := by
      obtain ⟨t, rest, rfl, -⟩ := h.first
      exact not_startsWith_cons fun hk => hbrace ⟨t, rest, rfl, hk⟩
    exact .accepted_no (other .kwPrint rfl) <| .accepted_no noBrace <|
      .accepted_no (other .kwIf rfl) <| .accepted_no (other .kwWhile rfl) <|
      .accepted_no (other .kwFor rfl) <| .accept_none (other .kwBreak rfl) <|
      .accept_none (other .kwReturn rfl) <| .accept_none (other .kwAssertion rfl) <|
      .accept_none (other .kwCheck rfl) <| .accepted_no (other .kwImport rfl) <|
      expressionStatement_complete depth context.inLoop context.inFunction h

theorem declaration_complete (ts : List Token) (s : Stmt) (after : List Token)
    (keeps : context.keepTests = true) (h : Declaration ts s) (helse : ¬StartsWith .kwElse after) :
    Delivers True (s.Permitted context.inLoop context.inFunction) (declaration context (depth + 1)) ts after
      (some s) := by
  rw [declaration]
  refine .recovering ?_
  cases h with
  | var hk h =>
    exact .accepted_yes hk
      (.bindPure (varDeclaration_complete depth context.inLoop context.inFunction h))
  | function hk hsig hopen hbody hclose =>
    exact .skipAccepted (by rw [hk]; decide) <| .accepted_yes hk
      (.bindPure (ih.function context _ _ _ _ _ _ after keeps hsig hopen hbody hclose))
  | @test keyword name ts s takesElse hk hname h =>
    refine .skipAccepted (by rw [hk]; decide) <| .skipAccepted (by rw [hk]; decide) <|
      .accepted_yes hk (.bindLast
        (ih.testStatement context name takesElse ts s after keeps hname h fun _ => helse) ?_)
    rw [keeps]
    exact .pure _
  | @statement ts s takesElse h =>
    have other : ∀ kind, opensStatement kind = false → ¬StartsWith kind (ts ++ after) :=
      fun _ hk => (h.first.append after).not_startsWith hk
    exact .accepted_no (other .kwVar rfl) <| .accepted_no (other .kwFun rfl) <|
      .accepted_no (other .kwTest rfl) <|
      .bindPure (ih.statement context takesElse ts s after keeps h fun _ => helse)

end Level

theorem statementsComplete (depth : Nat) : StatementsComplete depth := by
  induction depth with
  | zero =>
    constructor
    all_goals
      intros
      exact .outOfLevels trivial
  | succ depth ih =>
    exact
      { declaration := declaration_complete ih
        function := function_complete ih
        testStatement := testStatement_complete ih
        statement := statement_complete ih
        block := block_complete ih
        branch := branch_complete ih
        branchElse := branchElse_complete ih
        loopBody := loopBody_complete ih
        whileLoop := whileLoop_complete ih
        forStatement := forStatement_complete ih }

/-! ## Programs -/

/-- A derivable program is read to its end, unless it is reported to nest too deeply. -/
theorem declarations_complete {one : ParseM (Option Stmt)} {deep : Prop} {bound : Nat}
    (hone : ∀ ts s after, Declaration ts s → ¬StartsWith .kwElse after → (ts ++ after).length ≤ bound →
      Delivers deep (s.Permitted false false) one ts after (some s))
    {ts : List Token} {program : Program} :
    Declarations ts program → ∀ rounds s, s.rest = ts → ts.length ≤ rounds → ts.length ≤ bound →
      ∃ p s', declarations one rounds s = .ok p s' ∧
        ((deep ∧ ∃ d ∈ s'.reports, d.complaint = .nestsTooDeeply) ∨
          (p = program ∧ (program.Permitted → s'.reports = s.reports)))
  | .done, _, s, hs, _, _ => ⟨[], s, declarations_nil hs, .inr ⟨rfl, fun _ => rfl⟩⟩
  | @Declarations.more _ rest stmt _ h hrest, rounds, s, hs, hrounds, hbound => by
    obtain ⟨t, us, rfl, -⟩ := h.first
    rw [List.length_append, List.length_cons] at hrounds
    obtain ⟨rounds, rfl⟩ : ∃ k, rounds = k + 1 := ⟨rounds - 1, by omega⟩
    -- what follows are declarations, and none starts with an else, so a branch does not go on
    have noElse : ¬StartsWith .kwElse rest := by
      have behind := declarations_not_startsWith hrest rfl (not_startsWith_nil .kwElse)
      rwa [List.append_nil] at behind
    have read := hone _ stmt rest h noElse hbound s hs
    rcases declarations_run one rounds hs with ⟨r, s₁, hr, run⟩ | ⟨stop, s₁, s₂, d, hr, run, hreports, hd⟩
    · rw [hr] at read
      obtain ⟨rfl, hrest', hquiet⟩ := read
      obtain ⟨p, s₂, run', found⟩ := declarations_complete hone hrest rounds s₁ hrest' (by omega)
        (Nat.le_trans (List.length_append ▸ Nat.le_add_left _ _) hbound)
      refine ⟨stmt :: p, s₂, run p s₂ run', ?_⟩
      rcases found with ranOut | ⟨rfl, hquiet'⟩
      · exact .inl ranOut
      · exact .inr ⟨rfl, fun hP => (hquiet' hP.2).trans (hquiet hP.1)⟩
    · -- the levels ran out, and this is what the report says
      rw [hr] at read
      refine ⟨[], s₂, run, .inl ⟨read.1, d, ?_, hd⟩⟩
      rw [hreports]
      exact List.mem_cons_self

end ContractScript.Parser
