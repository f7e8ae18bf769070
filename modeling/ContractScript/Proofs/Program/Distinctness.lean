/-
The outline of a program tells the program.

Programs are alike if they are built in the same way and differ only in what an outline
does not show: the places that are kept beside the nodes, and which of the numbers that
are shown with the same text stands where. Two programs that have the same outline are
alike.

The title of a node tells what kind of node it is, and so which fields it has. Then only
a field has to be read: one that may be missing, whose word is no node, and one that holds
a constant, where no number is shown as one of the other constants are.
-/
import ContractScript.Proofs.Program.Clarity
import ContractScript.Proofs.Program.Likeness

set_option autoImplicit false

namespace ContractScript

/-! ## Programs that are shown alike -/

/-- The same constant, or numbers that are shown with the same text. -/
inductive Literal.Alike : Literal → Literal → Prop
  | same (value : Literal) : Alike value value
  | shown {x y : Float} (text : Number.Layout.plain.text x = Number.Layout.plain.text y) :
      Alike (.num x) (.num y)

/-- The same text, wherever it stands. -/
def Lexeme.Alike (l l' : Lexeme) : Prop :=
  l.text = l'.text

/-- Expressions that differ only in places and in numbers that are shown alike. -/
inductive Expr.Alike : Expr → Expr → Prop
  | literal {v v' : Literal} (value : v.Alike v') : Alike (.literal v) (.literal v')
  | group {e e' : Expr} (inner : Alike e e') : Alike (.group e) (.group e')
  | unary {op : UnaryOp} {p p' : Place} {e e' : Expr} (operand : Alike e e') :
      Alike (.unary op p e) (.unary op p' e')
  | binary {op : BinaryOp} {p p' : Place} {a a' b b' : Expr} (left : Alike a a')
      (right : Alike b b') : Alike (.binary op p a b) (.binary op p' a' b')
  | logical {op : LogicalOp} {p p' : Place} {a a' b b' : Expr} (left : Alike a a')
      (right : Alike b b') : Alike (.logical op p a b) (.logical op p' a' b')
  | choice {c c' a a' b b' : Expr} (condition : Alike c c') (whenTrue : Alike a a')
      (whenFalse : Alike b b') : Alike (.choice c a b) (.choice c' a' b')
  | «variable» {l l' : Lexeme} (name : l.Alike l') : Alike (.variable l) (.variable l')
  | qualified {ls ls' : List Lexeme} {l l' : Lexeme} (spaces : List.Forall₂ Lexeme.Alike ls ls')
      (name : l.Alike l') : Alike (.qualified ls l) (.qualified ls' l')
  | assign {l l' : Lexeme} {e e' : Expr} (name : l.Alike l') (value : Alike e e') :
      Alike (.assign l e) (.assign l' e')
  | call {f f' : Expr} {p p' : Place} {es es' : List Expr} (callee : Alike f f')
      (arguments : List.Forall₂ Expr.Alike es es') : Alike (.call f p es) (.call f' p' es')
  | list {es es' : List Expr} (items : List.Forall₂ Expr.Alike es es') : Alike (.list es) (.list es')
  | map {ps ps' : List (Expr × Expr)}
      (entries : List.Forall₂ (PairLike Expr.Alike Expr.Alike) ps ps') : Alike (.map ps) (.map ps')
  | index {c c' k k' : Expr} {p p' : Place} (collection : Alike c c') (key : Alike k k') :
      Alike (.index c p k) (.index c' p' k')
  | slice {c c' a a' b b' : Expr} {p p' : Place} (collection : Alike c c') (first : Alike a a')
      (last : Alike b b') : Alike (.slice c p a b) (.slice c' p' a' b')

/-- The same of the conditions of a contract, with the same message. -/
structure Clauses.Alike (c c' : Clauses) : Prop where
  conditions : List.Forall₂ Expr.Alike c.conditions c'.conditions
  message : c.message = c'.message

/-- The same of what a function declares. -/
structure Signature.Alike (s s' : Signature) : Prop where
  name : s.name.Alike s'.name
  parameters : List.Forall₂ Lexeme.Alike s.parameters s'.parameters
  before : s.before.Alike s'.before
  after : s.after.Alike s'.after

/-- Statements that differ only in places and in numbers that are shown alike. -/
inductive Stmt.Alike : Stmt → Stmt → Prop
  | expression {e e' : Expr} (value : e.Alike e') : Alike (.expression e) (.expression e')
  | print {e e' : Expr} (value : e.Alike e') : Alike (.print e) (.print e')
  | var {l l' : Lexeme} {v v' : Option Expr} (name : l.Alike l') (value : Option.Rel Expr.Alike v v') :
      Alike (.var l v) (.var l' v')
  | block {ss ss' : List Stmt} (body : List.Forall₂ Stmt.Alike ss ss') : Alike (.block ss) (.block ss')
  | branch {c c' : Expr} {s s' : Stmt} {o o' : Option Stmt} (condition : c.Alike c')
      (whenTrue : Alike s s') (whenFalse : Option.Rel Stmt.Alike o o') :
      Alike (.branch c s o) (.branch c' s' o')
  | loop {c c' : Expr} {s s' : Stmt} (condition : c.Alike c') (body : Alike s s') :
      Alike (.loop c s) (.loop c' s')
  | leave {p p' : Place} : Alike (.leave p) (.leave p')
  | yield {p p' : Place} {v v' : Option Expr} (value : Option.Rel Expr.Alike v v') :
      Alike (.yield p v) (.yield p' v')
  | function {d d' : Signature} {ss ss' : List Stmt} (signature : d.Alike d')
      (body : List.Forall₂ Stmt.Alike ss ss') : Alike (.function d ss) (.function d' ss')
  | contract {kind : ContractKind} {p p' : Place} {c c' : Clauses} (clauses : c.Alike c') :
      Alike (.contract kind p c) (.contract kind p' c')
  | load {path : String} {p p' : Place} {l l' : Option Lexeme} (space : Option.Rel Lexeme.Alike l l') :
      Alike (.load path p l) (.load path p' l')
  | test {name : String} {p p' : Place} {s s' : Stmt} (body : Alike s s') :
      Alike (.test name p s) (.test name p' s')

namespace Outline

/-! ## Reading fields -/

/-- What is laid out as a title with fields. -/
def IsNode : Outline → Prop
  | .node .. => True
  | _ => False

theorem isNode_ofExpr (e : Expr) : (ofExpr e).IsNode := by
  cases e <;> trivial

theorem isNode_ofStmt (s : Stmt) : (ofStmt s).IsNode := by
  cases s <;> trivial

variable {label : String} {o o' : Outline}

theorem entries_node_inj {title title' : String} {fields fields' : List (String × Outline)}
    (same : entries (.node title fields) = entries (.node title' fields')) :
    title = title' ∧ fieldEntries fields = fieldEntries fields' := by
  obtain ⟨line, below⟩ := Entry.mk.inj (List.cons.inj same).1
  exact ⟨(String.append_left_inj _).mp line, below⟩

theorem entries_node_iff {title : String} {fields fields' : List (String × Outline)} :
    entries (.node title fields) = entries (.node title fields')
      ↔ fieldEntries fields = fieldEntries fields' :=
  ⟨fun same => (entries_node_inj same).2, fun same => by rw [entries, entries, same]⟩

theorem fieldEntries_cons_iff {rest rest' : List (String × Outline)} :
    fieldEntries ((label, o) :: rest) = fieldEntries ((label, o') :: rest')
      ↔ fieldEntry label o = fieldEntry label o' ∧ fieldEntries rest = fieldEntries rest' := by
  rw [fieldEntries, fieldEntries, List.cons.injEq]

theorem word_inj {text text' : String}
    (same : fieldEntry label (.word text) = fieldEntry label (.word text')) : text = text' :=
  (String.append_right_inj _).mp (Entry.mk.inj same).1

theorem items_inj {items items' : List String}
    (same : (items.map fun item => Entry.mk ("- " ++ item) [])
      = items'.map fun item => Entry.mk ("- " ++ item) []) : items = items' :=
  (List.map_inj_right fun _ _ h => (String.append_right_inj _).mp (Entry.mk.inj h).1).mp same

theorem label_ne_empty (label : String) : "- " ++ label ++ ":" ≠ "- " ++ label ++ ": []" := by
  intro same
  exact absurd ((String.append_right_inj _).mp same) (by decide)

theorem words_inj {items items' : List String}
    (same : fieldEntry label (.words items) = fieldEntry label (.words items')) : items = items' := by
  cases items with
  | nil =>
    cases items' with
    | nil => rfl
    | cons item' rest' => exact nomatch (Entry.mk.inj same).2
  | cons item rest =>
    cases items' with
    | nil => exact nomatch (Entry.mk.inj same).2
    | cons item' rest' => exact items_inj (Entry.mk.inj same).2

theorem fieldEntry_node (h : o.IsNode) : fieldEntry label o = .mk ("- " ++ label ++ ":") (entries o) := by
  cases o with
  | node => rfl
  | word | words | nodes => exact h.elim

theorem node_inj (h : o.IsNode) (h' : o'.IsNode) (same : fieldEntry label o = fieldEntry label o') :
    entries o = entries o' := by
  rw [fieldEntry_node h, fieldEntry_node h'] at same
  exact (Entry.mk.inj same).2

/-- A word is not read as a node. -/
theorem word_ne_node {text : String} (h : o.IsNode) : fieldEntry label (.word text) ≠ fieldEntry label o := by
  cases o with
  | node => exact fun same => nomatch (Entry.mk.inj same).2
  | word | words | nodes => exact h.elim

theorem nodes_inj {items items' : List Outline}
    (same : fieldEntry label (.nodes items) = fieldEntry label (.nodes items')) :
    itemEntries items = itemEntries items' := by
  cases items with
  | nil =>
    cases items' with
    | nil => rfl
    | cons item' rest' => exact absurd (Entry.mk.inj same).1 (label_ne_empty label).symm
  | cons item rest =>
    cases items' with
    | nil => exact absurd (Entry.mk.inj same).1 (label_ne_empty label)
    | cons item' rest' => exact (Entry.mk.inj same).2

theorem itemEntries_ne_nil {rest : List Outline} (h : o.IsNode) : itemEntries (o :: rest) ≠ [] := by
  cases o with
  | node => exact List.cons_ne_nil _ _
  | word | words | nodes => exact h.elim

theorem itemEntries_cons_inj {rest rest' : List Outline} (h : o.IsNode) (h' : o'.IsNode)
    (same : itemEntries (o :: rest) = itemEntries (o' :: rest')) :
    entries o = entries o' ∧ itemEntries rest = itemEntries rest' := by
  cases o with
  | node =>
    cases o' with
    | node =>
      obtain ⟨first, more⟩ := List.cons.inj same
      exact ⟨congrArg (· :: []) first, more⟩
    | word | words | nodes => exact h'.elim
  | word | words | nodes => exact h.elim

/-! ## Constants -/

theorem enclosed_inj {text text' : String} (same : enclosed text = enclosed text') : text = text' :=
  (String.append_right_inj _).mp ((String.append_left_inj _).mp same)

theorem enclosed_ne {text word : String} (h : '"' ∉ word.toList) : enclosed text ≠ word := by
  rintro rfl
  apply h
  rw [enclosed, String.toList_append, String.toList_append]
  exact List.mem_cons_self

theorem number_quoteless (x : Float) : '"' ∉ (Number.Layout.plain.text x).toList := fun there =>
  absurd (Number.text_shown x there) (by decide)

/-- The word for a constant. -/
def literalWord : Literal → String
  | .nil => "nil"
  | .bool true => "true"
  | .bool false => "false"
  | .num x => Number.Layout.plain.text x
  | .text s => enclosed s

theorem ofLiteral_eq (value : Literal) : ofLiteral value = word (literalWord value) := by
  unfold ofLiteral literalWord
  split <;> rfl

/-- The constants that are written with a keyword. -/
def keywordLiterals : List Literal :=
  [.nil, .bool true, .bool false]

theorem number_ne_keyword {x : Float} {v : Literal} (h : v ∈ keywordLiterals) :
    Number.Layout.plain.text x ≠ literalWord v := by
  have strange : ∀ v ∈ keywordLiterals, ¬(literalWord v).toList ⊆ Number.shownAlphabet := by decide
  intro same
  exact strange v h (same ▸ Number.text_shown x)

theorem enclosed_ne_keyword {text : String} {v : Literal} (h : v ∈ keywordLiterals) :
    enclosed text ≠ literalWord v := by
  have quoteless : ∀ v ∈ keywordLiterals, '"' ∉ (literalWord v).toList := by decide
  exact enclosed_ne (quoteless v h)

theorem keyword_inj {v v' : Literal} (h : v ∈ keywordLiterals) (h' : v' ∈ keywordLiterals)
    (same : literalWord v = literalWord v') : v.Alike v' := by
  simp only [keywordLiterals, List.mem_cons, List.not_mem_nil, or_false] at h h'
  rcases h with rfl | rfl | rfl <;> rcases h' with rfl | rfl | rfl
  all_goals first
    | exact .same _
    | exact absurd same (by decide)

theorem keyword_or_shown (v : Literal) :
    v ∈ keywordLiterals ∨ (∃ x, v = .num x) ∨ ∃ s, v = .text s := by
  cases v with
  | nil => exact .inl (by simp [keywordLiterals])
  | bool b => cases b <;> exact .inl (by simp [keywordLiterals])
  | num x => exact .inr (.inl ⟨x, rfl⟩)
  | text s => exact .inr (.inr ⟨s, rfl⟩)

/-- A constant is told by its word, up to the numbers that share it. -/
theorem literalWord_inj {v v' : Literal} (same : literalWord v = literalWord v') : v.Alike v' := by
  rcases keyword_or_shown v with h | ⟨x, rfl⟩ | ⟨s, rfl⟩
  · rcases keyword_or_shown v' with h' | ⟨x', rfl⟩ | ⟨s', rfl⟩
    · exact keyword_inj h h' same
    · exact absurd same.symm (number_ne_keyword h)
    · exact absurd same.symm (enclosed_ne_keyword h)
  · rcases keyword_or_shown v' with h' | ⟨x', rfl⟩ | ⟨s', rfl⟩
    · exact absurd same (number_ne_keyword h')
    · exact .shown same
    · exact absurd same.symm (enclosed_ne (number_quoteless x))
  · rcases keyword_or_shown v' with h' | ⟨x', rfl⟩ | ⟨s', rfl⟩
    · exact absurd same (enclosed_ne_keyword h')
    · exact absurd same (enclosed_ne (number_quoteless x'))
    · rw [enclosed_inj same]
      exact .same _

/-! ## Expressions -/

/-- Names with the same texts. -/
theorem lexemes_alike {names names' : List Lexeme}
    (texts : names.map Lexeme.text = names'.map Lexeme.text) :
    List.Forall₂ Lexeme.Alike names names' := by
  rw [← List.forall₂_eq_eq_eq, List.forall₂_map_left_iff, List.forall₂_map_right_iff] at texts
  exact texts

theorem unary_inj {op op' : UnaryOp} (same : op.symbol = op'.symbol) : op = op' := by
  cases op <;> cases op' <;> first
    | rfl
    | exact absurd same (by decide)

theorem binary_inj {op op' : BinaryOp} (same : op.symbol = op'.symbol) : op = op' := by
  cases op <;> cases op' <;> first
    | rfl
    | exact absurd same (by decide)

theorem logical_inj {op op' : LogicalOp} (same : op.symbol = op'.symbol) : op = op' := by
  cases op <;> cases op' <;> first
    | rfl
    | exact absurd same (by decide)

/-- The field of a node is told by the line of the field. -/
theorem expr_inj {label : String} {e e' : Expr}
    (same : fieldEntry label (ofExpr e) = fieldEntry label (ofExpr e')) :
    entries (ofExpr e) = entries (ofExpr e') :=
  node_inj (isNode_ofExpr e) (isNode_ofExpr e') same

mutual

/-- The outline of an expression tells the expression. -/
theorem expr_alike : (e e' : Expr) → entries (ofExpr e) = entries (ofExpr e') → e.Alike e'
  -- a node has the name of its form in front, so the forms are the same; then field by field
  | .literal v, e', same => by
    cases e' with
    | literal v' =>
      simp only [ofExpr, entries_node_iff, fieldEntries_cons_iff, and_true] at same
      rw [ofLiteral_eq, ofLiteral_eq] at same
      exact .literal (literalWord_inj (word_inj same))
    | _ => exact absurd (entries_node_inj same).1 (by decide)
  | .group e, e', same => by
    cases e' with
    | group e' =>
      simp only [ofExpr, entries_node_iff, fieldEntries_cons_iff, and_true] at same
      exact .group (expr_alike e e' (expr_inj same))
    | _ => exact absurd (entries_node_inj same).1 (by decide)
  | .unary op _ e, e', same => by
    cases e' with
    | unary op' _ e' =>
      simp only [ofExpr, entries_node_iff, fieldEntries_cons_iff, and_true] at same
      obtain ⟨symbol, operand⟩ := same
      cases unary_inj (word_inj symbol)
      exact .unary (expr_alike e e' (expr_inj operand))
    | _ => exact absurd (entries_node_inj same).1 (by decide)
  | .binary op _ a b, e', same => by
    cases e' with
    | binary op' _ a' b' =>
      simp only [ofExpr, entries_node_iff, fieldEntries_cons_iff, and_true] at same
      obtain ⟨left, symbol, right⟩ := same
      cases binary_inj (word_inj symbol)
      exact .binary (expr_alike a a' (expr_inj left)) (expr_alike b b' (expr_inj right))
    | _ => exact absurd (entries_node_inj same).1 (by decide)
  | .logical op _ a b, e', same => by
    cases e' with
    | logical op' _ a' b' =>
      simp only [ofExpr, entries_node_iff, fieldEntries_cons_iff, and_true] at same
      obtain ⟨left, symbol, right⟩ := same
      cases logical_inj (word_inj symbol)
      exact .logical (expr_alike a a' (expr_inj left)) (expr_alike b b' (expr_inj right))
    | _ => exact absurd (entries_node_inj same).1 (by decide)
  | .choice c a b, e', same => by
    cases e' with
    | choice c' a' b' =>
      simp only [ofExpr, entries_node_iff, fieldEntries_cons_iff, and_true] at same
      obtain ⟨condition, whenTrue, whenFalse⟩ := same
      exact .choice (expr_alike c c' (expr_inj condition)) (expr_alike a a' (expr_inj whenTrue))
        (expr_alike b b' (expr_inj whenFalse))
    | _ => exact absurd (entries_node_inj same).1 (by decide)
  | .variable l, e', same => by
    cases e' with
    | «variable» l' =>
      simp only [ofExpr, entries_node_iff, fieldEntries_cons_iff, and_true] at same
      exact .variable (word_inj same)
    | _ => exact absurd (entries_node_inj same).1 (by decide)
  | .qualified ls l, e', same => by
    cases e' with
    | qualified ls' l' =>
      simp only [ofExpr, entries_node_iff, fieldEntries_cons_iff, and_true] at same
      -- the name comes last, so the words before it are the namespaces
      have texts := words_inj same
      rw [List.map_append, List.map_append] at texts
      obtain ⟨spaces, name⟩ := List.append_inj' texts rfl
      exact .qualified (lexemes_alike spaces) (List.cons.inj name).1
    | _ => exact absurd (entries_node_inj same).1 (by decide)
  | .assign l e, e', same => by
    cases e' with
    | assign l' e' =>
      simp only [ofExpr, entries_node_iff, fieldEntries_cons_iff, and_true] at same
      obtain ⟨name, value⟩ := same
      exact .assign (word_inj name) (expr_alike e e' (expr_inj value))
    | _ => exact absurd (entries_node_inj same).1 (by decide)
  | .call f _ es, e', same => by
    cases e' with
    | call f' _ es' =>
      simp only [ofExpr, entries_node_iff, fieldEntries_cons_iff, and_true] at same
      obtain ⟨callee, -, arguments⟩ := same
      exact .call (expr_alike f f' (expr_inj callee)) (exprs_alike es es' (nodes_inj arguments))
    | _ => exact absurd (entries_node_inj same).1 (by decide)
  | .list es, e', same => by
    cases e' with
    | list es' =>
      simp only [ofExpr, entries_node_iff, fieldEntries_cons_iff, and_true] at same
      exact .list (exprs_alike es es' (nodes_inj same))
    | _ => exact absurd (entries_node_inj same).1 (by decide)
  | .map ps, e', same => by
    cases e' with
    | map ps' =>
      simp only [ofExpr, entries_node_iff, fieldEntries_cons_iff, and_true] at same
      obtain ⟨keys, values⟩ := same
      exact .map (pairs_alike ps ps' (nodes_inj keys) (nodes_inj values))
    | _ => exact absurd (entries_node_inj same).1 (by decide)
  | .index c _ k, e', same => by
    cases e' with
    | index c' _ k' =>
      simp only [ofExpr, entries_node_iff, fieldEntries_cons_iff, and_true] at same
      obtain ⟨collection, -, key⟩ := same
      exact .index (expr_alike c c' (expr_inj collection)) (expr_alike k k' (expr_inj key))
    | _ => exact absurd (entries_node_inj same).1 (by decide)
  | .slice c _ a b, e', same => by
    cases e' with
    | slice c' _ a' b' =>
      simp only [ofExpr, entries_node_iff, fieldEntries_cons_iff, and_true] at same
      obtain ⟨collection, -, first, last⟩ := same
      exact .slice (expr_alike c c' (expr_inj collection)) (expr_alike a a' (expr_inj first))
        (expr_alike b b' (expr_inj last))
    | _ => exact absurd (entries_node_inj same).1 (by decide)

theorem exprs_alike : (es es' : List Expr) → itemEntries (ofExprs es) = itemEntries (ofExprs es') →
    List.Forall₂ Expr.Alike es es'
  | [], es', same => by
    cases es' with
    | nil => exact .nil
    | cons e' rest' => exact absurd same.symm (itemEntries_ne_nil (isNode_ofExpr e'))
  | e :: rest, es', same => by
    cases es' with
    | nil => exact absurd same (itemEntries_ne_nil (isNode_ofExpr e))
    | cons e' rest' =>
      obtain ⟨first, more⟩ := itemEntries_cons_inj (isNode_ofExpr e) (isNode_ofExpr e') same
      exact .cons (expr_alike e e' first) (exprs_alike rest rest' more)

theorem pairs_alike : (ps ps' : List (Expr × Expr)) →
    itemEntries (ofKeys ps) = itemEntries (ofKeys ps') →
    itemEntries (ofValues ps) = itemEntries (ofValues ps') →
    List.Forall₂ (PairLike Expr.Alike Expr.Alike) ps ps'
  | [], ps', keys, _ => by
    cases ps' with
    | nil => exact .nil
    | cons p' rest' => exact absurd keys.symm (itemEntries_ne_nil (isNode_ofExpr p'.1))
  | (k, v) :: rest, ps', keys, values => by
    cases ps' with
    | nil => exact absurd keys (itemEntries_ne_nil (isNode_ofExpr k))
    | cons p' rest' =>
      obtain ⟨k', v'⟩ := p'
      obtain ⟨key, keys⟩ := itemEntries_cons_inj (isNode_ofExpr k) (isNode_ofExpr k') keys
      obtain ⟨value, values⟩ := itemEntries_cons_inj (isNode_ofExpr v) (isNode_ofExpr v') values
      exact .cons (.mk (expr_alike k k' key) (expr_alike v v' value))
        (pairs_alike rest rest' keys values)

end

/-- The word for nothing is not read as an expression. -/
theorem expr?_alike {label : String} {e e' : Option Expr}
    (same : fieldEntry label (ofExpr? e) = fieldEntry label (ofExpr? e')) :
    Option.Rel Expr.Alike e e' := by
  cases e with
  | none =>
    cases e' with
    | none => exact .none
    | some e' => exact absurd same (word_ne_node (isNode_ofExpr e'))
  | some e =>
    cases e' with
    | none => exact absurd same.symm (word_ne_node (isNode_ofExpr e))
    | some e' => exact .some (expr_alike e e' (expr_inj same))

/-! ## Statements -/

theorem contract_inj {kind kind' : ContractKind} (same : kind.word = kind'.word) : kind = kind' := by
  cases kind <;> cases kind' <;> first
    | rfl
    | exact absurd same (by decide)

/-- A message is not read as the word for nothing. -/
theorem message_inj {label : String} {message message' : Option String}
    (same : fieldEntry label (ofMessage message) = fieldEntry label (ofMessage message')) :
    message = message' := by
  cases message with
  | none =>
    cases message' with
    | none => rfl
    | some text' => exact absurd (word_inj same).symm (enclosed_ne (by decide))
  | some text =>
    cases message' with
    | none => exact absurd (word_inj same) (enclosed_ne (by decide))
    | some text' => rw [enclosed_inj (word_inj same)]

theorem conditions_alike {label : String} {es es' : List Expr}
    (same : fieldEntry label (.nodes (ofExprs es)) = fieldEntry label (.nodes (ofExprs es'))) :
    List.Forall₂ Expr.Alike es es' :=
  exprs_alike es es' (nodes_inj same)

/-- No name is read as the word for nothing. -/
theorem alias_alike : {space space' : Option Lexeme} →
    (∀ l, space = some l → l.NameFrom Token.WellSpelled) →
    (∀ l, space' = some l → l.NameFrom Token.WellSpelled) →
    ((match space with | some name => name.text | none => "nil")
      = match space' with | some name => name.text | none => "nil") →
    Option.Rel Lexeme.Alike space space'
  | none, none, _, _, _ => .none
  | none, some l', _, h', same => absurd same.symm (h' l' rfl).word.2
  | some l, none, h, _, same => absurd same (h l rfl).word.2
  | some _, some _, _, _, same => .some same

theorem stmt_inj {label : String} {s s' : Stmt}
    (same : fieldEntry label (ofStmt s) = fieldEntry label (ofStmt s')) :
    entries (ofStmt s) = entries (ofStmt s') :=
  node_inj (isNode_ofStmt s) (isNode_ofStmt s') same

mutual

/-- The outline of a statement tells the statement, if its names were written as such. -/
theorem stmt_alike : (s s' : Stmt) → s.From Token.WellSpelled → s'.From Token.WellSpelled →
    entries (ofStmt s) = entries (ofStmt s') → s.Alike s'
  -- statements are told apart by the name of their form too
  | .expression e, s', h, h', same => by
    cases s' with
    | expression e' =>
      simp only [ofStmt, entries_node_iff, fieldEntries_cons_iff, and_true] at same
      exact .expression (expr_alike e e' (expr_inj same))
    | _ => exact absurd (entries_node_inj same).1 (by decide)
  | .print e, s', h, h', same => by
    cases s' with
    | print e' =>
      simp only [ofStmt, entries_node_iff, fieldEntries_cons_iff, and_true] at same
      exact .print (expr_alike e e' (expr_inj same))
    | _ => exact absurd (entries_node_inj same).1 (by decide)
  | .var l v, s', h, h', same => by
    cases s' with
    | var l' v' =>
      simp only [ofStmt, entries_node_iff, fieldEntries_cons_iff, and_true] at same
      obtain ⟨name, value⟩ := same
      exact .var (word_inj name) (expr?_alike value)
    | _ => exact absurd (entries_node_inj same).1 (by decide)
  | .block ss, s', h, h', same => by
    cases s' with
    | block ss' =>
      simp only [ofStmt, entries_node_iff, fieldEntries_cons_iff, and_true] at same
      exact .block (stmts_alike ss ss' h h' (nodes_inj same))
    | _ => exact absurd (entries_node_inj same).1 (by decide)
  | .branch c s o, s', h, h', same => by
    cases s' with
    | branch c' s' o' =>
      simp only [ofStmt, entries_node_iff, fieldEntries_cons_iff, and_true] at same
      obtain ⟨condition, whenTrue, whenFalse⟩ := same
      exact .branch (expr_alike c c' (expr_inj condition))
        (stmt_alike s s' h.2.1 h'.2.1 (stmt_inj whenTrue)) (stmt?_alike o o' h.2.2 h'.2.2 whenFalse)
    | _ => exact absurd (entries_node_inj same).1 (by decide)
  | .loop c s, s', h, h', same => by
    cases s' with
    | loop c' s' =>
      simp only [ofStmt, entries_node_iff, fieldEntries_cons_iff, and_true] at same
      obtain ⟨condition, body⟩ := same
      exact .loop (expr_alike c c' (expr_inj condition)) (stmt_alike s s' h.2 h'.2 (stmt_inj body))
    | _ => exact absurd (entries_node_inj same).1 (by decide)
  | .leave _, s', h, h', same => by
    cases s' with
    | leave _ =>
      exact .leave
    | _ => exact absurd (entries_node_inj same).1 (by decide)
  | .yield _ v, s', h, h', same => by
    cases s' with
    | yield _ v' =>
      simp only [ofStmt, entries_node_iff, fieldEntries_cons_iff, and_true] at same
      obtain ⟨-, value⟩ := same
      exact .yield (expr?_alike value)
    | _ => exact absurd (entries_node_inj same).1 (by decide)
  | .function d ss, s', h, h', same => by
    cases s' with
    | function d' ss' =>
      simp only [ofStmt, entries_node_iff, fieldEntries_cons_iff, and_true] at same
      -- a node without a message says so by a word that no message is written as
      obtain ⟨name, parameters, body, before, after, beforeMessage, afterMessage⟩ := same
      exact .function
        ⟨word_inj name, lexemes_alike (words_inj parameters),
          ⟨conditions_alike before, message_inj beforeMessage⟩,
          ⟨conditions_alike after, message_inj afterMessage⟩⟩
        (stmts_alike ss ss' h.2 h'.2 (nodes_inj body))
    | _ => exact absurd (entries_node_inj same).1 (by decide)
  | .contract kind _ c, s', h, h', same => by
    cases s' with
    | contract kind' _ c' =>
      simp only [ofStmt, entries_node_iff, fieldEntries_cons_iff, and_true] at same
      obtain ⟨keyword, conditions, message⟩ := same
      cases contract_inj (word_inj keyword)
      exact .contract ⟨conditions_alike conditions, message_inj message⟩
    | _ => exact absurd (entries_node_inj same).1 (by decide)
  | .load path _ l, s', h, h', same => by
    cases s' with
    | load path' _ l' =>
      simp only [ofStmt, entries_node_iff, fieldEntries_cons_iff, and_true] at same
      obtain ⟨written, space⟩ := same
      cases enclosed_inj (word_inj written)
      exact .load (alias_alike h.2 h'.2 (word_inj space))
    | _ => exact absurd (entries_node_inj same).1 (by decide)
  | .test name _ s, s', h, h', same => by
    cases s' with
    | test name' _ s' =>
      simp only [ofStmt, entries_node_iff, fieldEntries_cons_iff, and_true] at same
      obtain ⟨title, body⟩ := same
      cases enclosed_inj (word_inj title)
      exact .test (stmt_alike s s' h.2 h'.2 (stmt_inj body))
    | _ => exact absurd (entries_node_inj same).1 (by decide)

theorem stmts_alike : (ss ss' : List Stmt) → Stmt.AllFrom Token.WellSpelled ss →
    Stmt.AllFrom Token.WellSpelled ss' → itemEntries (ofStmts ss) = itemEntries (ofStmts ss') →
    List.Forall₂ Stmt.Alike ss ss'
  | [], ss', _, _, same => by
    cases ss' with
    | nil => exact .nil
    | cons s' rest' => exact absurd same.symm (itemEntries_ne_nil (isNode_ofStmt s'))
  | s :: rest, ss', h, h', same => by
    cases ss' with
    | nil => exact absurd same (itemEntries_ne_nil (isNode_ofStmt s))
    | cons s' rest' =>
      obtain ⟨first, more⟩ := itemEntries_cons_inj (isNode_ofStmt s) (isNode_ofStmt s') same
      exact .cons (stmt_alike s s' h.1 h'.1 first) (stmts_alike rest rest' h.2 h'.2 more)

theorem stmt?_alike {label : String} : (s s' : Option Stmt) → Stmt.OptionFrom Token.WellSpelled s →
    Stmt.OptionFrom Token.WellSpelled s' →
    fieldEntry label (ofStmt? s) = fieldEntry label (ofStmt? s') → Option.Rel Stmt.Alike s s'
  | none, none, _, _, _ => .none
  | none, some s', _, _, same => absurd same (word_ne_node (isNode_ofStmt s'))
  | some s, none, _, _, same => absurd same.symm (word_ne_node (isNode_ofStmt s))
  | some s, some s', h, h', same => .some (stmt_alike s s' h h' (stmt_inj same))

end

end Outline

/-! ## Programs -/

/-- The lines of a program's outline are those of clear entries. -/
theorem Program.outline_eq (width : Nat) (program : Program) :
    program.outline width = "\n".intercalate (Outline.Entry.allLines (Outline.blanks width) 0
      (Outline.itemEntries (Outline.ofStmts program))) := by
  rw [Program.outline, Outline.blanks, Outline.itemsLines_eq]

theorem Program.wellSpelled_ofSource (keepTests : Bool) (file : Option String) (source : String) :
    Stmt.AllFrom Token.WellSpelled (Program.ofSource keepTests file source).1 :=
  Program.from_parse keepTests spelled_wellSpelled fun _ member => TokenList.spells_of_mem member

/-- Programs with the same outline are alike, whatever they were read from and whether their sources
are well formed or not, if the outlines are indented at all. -/
theorem Program.alike_of_outline {width : Nat} (positive : 0 < width) (keepTests keepTests' : Bool)
    (file file' : Option String) (source source' : String)
    (same : Program.outline width (Program.ofSource keepTests file source).1
      = Program.outline width (Program.ofSource keepTests' file' source').1) :
    List.Forall₂ Stmt.Alike (Program.ofSource keepTests file source).1
      (Program.ofSource keepTests' file' source').1 := by
  have h := Program.wellSpelled_ofSource keepTests file source
  have h' := Program.wellSpelled_ofSource keepTests' file' source'
  have legible := Outline.legible_itemEntries _ (Outline.clear_ofStmts _ h)
  have legible' := Outline.legible_itemEntries _ (Outline.clear_ofStmts _ h')
  rw [Program.outline_eq, Program.outline_eq] at same
  exact Outline.stmts_alike _ _ h h' (Outline.Entry.text_inj positive legible legible' same)

/-- The same name printed on different lines of different files. -/
theorem Program.alike_of_outline_shifted :
    Program.outline 2 (Program.ofSource false (some "a") "print x;").1
        = Program.outline 2 (Program.ofSource true none "\n  print x;").1
      ∧ List.Forall₂ Stmt.Alike (Program.ofSource false (some "a") "print x;").1
        (Program.ofSource true none "\n  print x;").1 := by
  have same : Program.outline 2 (Program.ofSource false (some "a") "print x;").1
      = Program.outline 2 (Program.ofSource true none "\n  print x;").1 := by
    decide +kernel
  exact ⟨same, Program.alike_of_outline (by decide) false true (some "a") none "print x;"
    "\n  print x;" same⟩

end ContractScript
