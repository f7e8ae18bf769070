/-
Outlines of programs that can be read back.

The titles and labels of an outline are words, so is every name in a program, and what a
program says between quotes holds no quotes. A number is shown with the characters of
numbers and of two words. So nothing in an outline of a program is mistaken for the end
of a line, and no line seems deeper than it is.
-/
import ContractScript.Proofs.Number.Numeral
import ContractScript.Proofs.Program.Indentation
import ContractScript.Proofs.Program.Origin

set_option autoImplicit false

namespace ContractScript

/-! ## Numbers -/

namespace Number

/-- The characters with which numbers are shown. -/
def shownAlphabet : List Char :=
  numeralAlphabet ++ ['e', '+', 'i', 'n', 'f', 'a']

theorem digitsOf_shown (n : Nat) : digitsOf n ⊆ shownAlphabet := by
  intro c h
  have digit : c.isDigit = true := Nat.isDigit_of_mem_toDigits (by decide) (by decide) h
  have digit' : Segment.isDigit c = true := by
    simpa [Segment.isDigit, Char.isDigit, Char.le_def] using digit
  exact List.mem_append_left _ (List.mem_of_mem_take (digit_mem digit'))

theorem significantDigits_shown (n : Nat) : significantDigits (digitsOf n) ⊆ shownAlphabet := by
  intro c h
  rw [significantDigits, List.mem_reverse] at h
  exact digitsOf_shown n (List.mem_reverse.mp ((List.dropWhile_sublist _).subset h))

theorem replicate_shown (n : Nat) : List.replicate n '0' ⊆ shownAlphabet :=
  List.replicate_subset.mpr (.inr (by decide))

theorem exponentText_shown (least : Nat) (e : Int) : exponentText least e ⊆ shownAlphabet := by
  refine List.cons_subset.mpr ⟨?_, List.append_subset.mpr ⟨replicate_shown _, digitsOf_shown _⟩⟩
  split <;> decide

theorem positive_shown (d : Decimal) : Layout.plain.positive d ⊆ shownAlphabet := by
  have digits := significantDigits_shown d.digits
  have lead : ∀ n, (significantDigits (digitsOf d.digits)).take n ⊆ shownAlphabet := fun n =>
    List.Subset.trans (List.take_subset n _) digits
  have tail : ∀ n, (significantDigits (digitsOf d.digits)).drop n ⊆ shownAlphabet := fun n =>
    List.Subset.trans (List.drop_subset n _) digits
  unfold Layout.positive
  dsimp only
  split
  · split
    · simp only [List.cons_subset, List.append_subset]
      exact ⟨by decide, by decide, replicate_shown _, digits⟩
    · split
      · simp only [List.append_subset]
        exact ⟨⟨digits, replicate_shown _⟩, by decide +kernel⟩
      · simp only [List.cons_subset, List.append_subset]
        exact ⟨lead _, by decide, tail _⟩
  · simp only [List.cons_subset, List.append_subset]
    refine ⟨⟨lead _, ?_⟩, by decide, exponentText_shown _ _⟩
    split
    · exact List.nil_subset _
    · exact List.cons_subset.mpr ⟨by decide, tail _⟩

/-- A number is shown with few characters. -/
theorem text_shown (x : Float) : (Layout.plain.text x).toList ⊆ shownAlphabet := by
  unfold Layout.text
  split
  · decide +kernel
  · dsimp only
    rw [String.toList_ofList, List.append_subset]
    refine ⟨?_, ?_⟩
    · split <;> decide
    · split
      · decide
      · split
        · decide +kernel
        · exact positive_shown _

end Number

/-! ## Words -/

/-- A text that is made of letters, digits and underscores. -/
def Wordlike (text : String) : Prop :=
  (!text.toList.isEmpty && text.toList.all Segment.isWordPart) = true

theorem wordlike_iff {text : String} :
    Wordlike text ↔ text.toList ≠ [] ∧ ∀ c ∈ text.toList, Segment.isWordPart c = true := by
  simp [Wordlike]

namespace Token

/-- The token is spelled as its kind is written. -/
def WellSpelled (t : Token) : Prop :=
  Spells t.kind t.lexeme.text.toList

/-- An identifier is a word and no keyword. -/
theorem Spells.word_of_identifier {cs : List Char} (h : Spells .identifier cs) :
    cs ≠ [] ∧ (∀ c ∈ cs, Segment.isWordPart c = true) ∧ ∀ entry ∈ keywords, entry.1.toList ≠ cs := by
  cases h with
  | identifier start parts free =>
    refine ⟨List.cons_ne_nil _ _, List.forall_mem_cons.mpr ⟨?_, parts⟩, free⟩
    rw [Segment.isWordPart, start, Bool.true_or]
  | sign listed => exact absurd rfl (not_fixed .identifier (by decide) _ (List.mem_append_left _ listed))
  | keyword listed =>
    exact absurd rfl (not_fixed .identifier (by decide) _
      (List.mem_append_right _ (List.mem_map.mpr ⟨_, listed, rfl⟩)))

theorem WellSpelled.content {t : Token} (h : t.WellSpelled) (hk : t.kind = .text) :
    '"' ∉ t.content.toList := by
  rw [WellSpelled, hk] at h
  obtain ⟨body, outside, chars⟩ := h.exists_body
  have same := content_of_spells h
  rw [← String.toList_inj, chars, String.toList_append, String.toList_append] at same
  have inner : body = t.content.toList := by
    have inside := (List.cons.inj same).2
    exact (List.append_inj' inside rfl).1
  rwa [← inner]

end Token

theorem spelled_wellSpelled : Spelled Token.WellSpelled :=
  fun _ spelled => spelled

/-- A name is a word and is not the word that stands for nothing. -/
theorem Lexeme.NameFrom.word {l : Lexeme} (h : l.NameFrom Token.WellSpelled) :
    Wordlike l.text ∧ l.text ≠ "nil" := by
  obtain ⟨t, spelled, hk, rfl⟩ := h
  rw [Token.WellSpelled, hk] at spelled
  obtain ⟨some, parts, free⟩ := spelled.word_of_identifier
  refine ⟨wordlike_iff.mpr ⟨some, parts⟩, fun same => ?_⟩
  exact free ("nil", .kwNil) (by decide) (by rw [same])

theorem Token.ContentFrom.quoteless {text : String} (h : Token.ContentFrom WellSpelled text) :
    '"' ∉ text.toList := by
  obtain ⟨t, spelled, hk, rfl⟩ := h
  exact spelled.content hk

theorem Token.ContentAt.contentFrom {T : Token → Prop} {text : String} {place : Place}
    (h : Token.ContentAt T text place) : Token.ContentFrom T text := by
  obtain ⟨t, ht, hk, content, -⟩ := h
  exact ⟨t, ht, hk, content⟩

namespace Outline

/-! ## Clear outlines -/

theorem closed_of_wordlike {text : String} (h : Wordlike text) : Closed text := by
  refine closes_of_plain fun c hc => ⟨?_, ?_⟩
  all_goals
    rintro rfl
    exact absurd ((wordlike_iff.mp h).2 _ hc) (by decide)

theorem closed_number (x : Float) : Closed (Number.Layout.plain.text x) := by
  refine closes_of_plain fun c hc => ⟨?_, ?_⟩
  all_goals
    rintro rfl
    exact absurd (Number.text_shown x hc) (by decide)

theorem legible_title {title : String} (h : Wordlike title) : Legible (title ++ ":") := by
  refine ⟨?_, (closed_of_wordlike h).append rfl⟩
  cases chars : title.toList with
  | nil => exact absurd chars (wordlike_iff.mp h).1
  | cons c cs =>
    refine ⟨c, cs ++ ":".toList, by rw [String.toList_append, chars]; rfl, ?_⟩
    rintro rfl
    exact absurd ((wordlike_iff.mp h).2 ' ' (chars ▸ List.mem_cons_self)) (by decide)

theorem legible_item {text : String} (h : Closed text) : Legible ("- " ++ text) := by
  refine ⟨⟨'-', ' ' :: text.toList, ?_, by decide⟩, Closed.append rfl h⟩
  rw [String.toList_append]
  rfl

theorem legible_label {label more : String} (h : Wordlike label) (hmore : Closed more) :
    Legible ("- " ++ label ++ more) := by
  rw [String.append_assoc]
  exact legible_item ((closed_of_wordlike h).append hmore)

mutual

/-- Titles and labels are words, and what stands beside a label does not end its line. -/
def Clear : Outline → Prop
  | .node title fields => Wordlike title ∧ FieldsClear fields
  | .word text => Closed text
  | .words items => ∀ item ∈ items, Closed item
  | .nodes items => ItemsClear items

/-- The same of labelled fields. -/
def FieldsClear : List (String × Outline) → Prop
  | [] => True
  | (label, value) :: rest => (Wordlike label ∧ Clear value) ∧ FieldsClear rest

/-- The same of a list of nodes. -/
def ItemsClear : List Outline → Prop
  | [] => True
  | item :: rest => Clear item ∧ ItemsClear rest

end

theorem allIn_words {items : List String} (h : ∀ item ∈ items, Closed item) :
    Entry.AllIn Legible (items.map fun item => .mk ("- " ++ item) []) := by
  induction items with
  | nil => trivial
  | cons item rest ih =>
    rw [List.forall_mem_cons] at h
    exact ⟨⟨legible_item h.1, trivial⟩, ih h.2⟩

mutual

/-- The lines of a clear outline can be told from each other. -/
theorem legible_entries : (o : Outline) → o.Clear → Entry.AllIn Legible (entries o)
  | .node _ fields, h => ⟨⟨legible_title h.1, legible_fieldEntries fields h.2⟩, trivial⟩
  | .word _, _ => trivial
  | .words _, _ => trivial
  | .nodes items, h => legible_itemEntries items h

theorem legible_fieldEntries : (fields : List (String × Outline)) → FieldsClear fields →
    Entry.AllIn Legible (fieldEntries fields)
  | [], _ => trivial
  | (_, value) :: rest, h =>
    ⟨legible_fieldEntry h.1.1 value h.1.2, legible_fieldEntries rest h.2⟩

theorem legible_fieldEntry {label : String} (word : Wordlike label) :
    (value : Outline) → value.Clear → (fieldEntry label value).All Legible
  | .node _ fields, h =>
    ⟨legible_label word rfl, ⟨legible_title h.1, legible_fieldEntries fields h.2⟩, trivial⟩
  | .word text, h => by
    rw [fieldEntry, String.append_assoc]
    exact ⟨legible_label word (Closed.append rfl h), trivial⟩
  | .words [], _ => ⟨legible_label word rfl, trivial⟩
  | .words (item :: rest), h => ⟨legible_label word rfl, allIn_words h⟩
  | .nodes [], _ => ⟨legible_label word rfl, trivial⟩
  | .nodes (item :: rest), h =>
    ⟨legible_label word rfl, legible_itemEntries (item :: rest) h⟩

theorem legible_itemEntries : (items : List Outline) → ItemsClear items →
    Entry.AllIn Legible (itemEntries items)
  | [], _ => trivial
  | item :: rest, h => (legible_entries item h.1).append (legible_itemEntries rest h.2)

end

/-! ## Outlines of programs -/

theorem clear_ofLiteral {value : Literal} (h : value.From Token.WellSpelled) :
    (ofLiteral value).Clear := by
  cases value with
  | nil => exact (rfl : Closed "nil")
  | bool b =>
    cases b with
    | true => exact (rfl : Closed "true")
    | false => exact (rfl : Closed "false")
  | num x => exact closed_number x
  | text s => exact closed_enclosed (Token.ContentFrom.quoteless h)

theorem clear_ofMessage {message : Option String}
    (h : ∀ text, message = some text → Token.ContentFrom Token.WellSpelled text) :
    (ofMessage message).Clear := by
  cases message with
  | none => exact (rfl : Closed "nil")
  | some text => exact closed_enclosed (h text rfl).quoteless

theorem clear_ofLexemes {names : List Lexeme} (h : ∀ l ∈ names, l.NameFrom Token.WellSpelled) :
    (ofLexemes names).Clear := by
  intro item hitem
  obtain ⟨l, hl, rfl⟩ := List.mem_map.mp hitem
  exact closed_of_wordlike (h l hl).word.1

theorem closed_unary (op : UnaryOp) : Closed op.symbol := by
  cases op <;> rfl

theorem closed_binary (op : BinaryOp) : Closed op.symbol := by
  cases op <;> rfl

theorem closed_logical (op : LogicalOp) : Closed op.symbol := by
  cases op <;> rfl

theorem closed_contract (kind : ContractKind) : Closed kind.word := by
  cases kind <;> rfl

mutual

theorem clear_ofExpr : (e : Expr) → e.From Token.WellSpelled → (ofExpr e).Clear
  | .literal _, h => ⟨rfl, ⟨rfl, clear_ofLiteral h⟩, trivial⟩
  | .group inner, h => ⟨rfl, ⟨rfl, clear_ofExpr inner h⟩, trivial⟩
  | .unary op _ operand, h =>
    ⟨rfl, ⟨rfl, closed_unary op⟩, ⟨rfl, clear_ofExpr operand h.2⟩, trivial⟩
  | .binary op _ left right, h =>
    ⟨rfl, ⟨rfl, clear_ofExpr left h.2.1⟩, ⟨rfl, closed_binary op⟩,
      ⟨rfl, clear_ofExpr right h.2.2⟩, trivial⟩
  | .logical op _ left right, h =>
    ⟨rfl, ⟨rfl, clear_ofExpr left h.2.1⟩, ⟨rfl, closed_logical op⟩,
      ⟨rfl, clear_ofExpr right h.2.2⟩, trivial⟩
  | .choice condition whenTrue whenFalse, h =>
    ⟨rfl, ⟨rfl, clear_ofExpr condition h.1⟩, ⟨rfl, clear_ofExpr whenTrue h.2.1⟩,
      ⟨rfl, clear_ofExpr whenFalse h.2.2⟩, trivial⟩
  | .variable _, h => ⟨rfl, ⟨rfl, closed_of_wordlike (Lexeme.NameFrom.word h).1⟩, trivial⟩
  | .qualified _ _, h => ⟨rfl, ⟨rfl, clear_ofLexemes h⟩, trivial⟩
  | .assign _ value, h =>
    ⟨rfl, ⟨rfl, closed_of_wordlike h.1.word.1⟩, ⟨rfl, clear_ofExpr value h.2⟩, trivial⟩
  | .call callee _ arguments, h =>
    ⟨rfl, ⟨rfl, clear_ofExpr callee h.2.1⟩, ⟨rfl, (rfl : Closed ")")⟩,
      ⟨rfl, clear_ofExprs arguments h.2.2⟩, trivial⟩
  | .list items, h => ⟨rfl, ⟨rfl, clear_ofExprs items h⟩, trivial⟩
  | .map entries, h =>
    ⟨rfl, ⟨rfl, clear_ofKeys entries h⟩, ⟨rfl, clear_ofValues entries h⟩, trivial⟩
  | .index collection _ key, h =>
    ⟨rfl, ⟨rfl, clear_ofExpr collection h.2.1⟩, ⟨rfl, (rfl : Closed "[")⟩,
      ⟨rfl, clear_ofExpr key h.2.2⟩, trivial⟩
  | .slice collection _ first last, h =>
    ⟨rfl, ⟨rfl, clear_ofExpr collection h.2.1⟩, ⟨rfl, (rfl : Closed "[")⟩,
      ⟨rfl, clear_ofExpr first h.2.2.1⟩, ⟨rfl, clear_ofExpr last h.2.2.2⟩, trivial⟩

theorem clear_ofExprs : (es : List Expr) → Expr.AllFrom Token.WellSpelled es → ItemsClear (ofExprs es)
  | [], _ => trivial
  | e :: rest, h => ⟨clear_ofExpr e h.1, clear_ofExprs rest h.2⟩

theorem clear_ofKeys : (entries : List (Expr × Expr)) → Expr.EntriesFrom Token.WellSpelled entries →
    ItemsClear (ofKeys entries)
  | [], _ => trivial
  | (key, _) :: rest, h => ⟨clear_ofExpr key h.1.1, clear_ofKeys rest h.2⟩

theorem clear_ofValues : (entries : List (Expr × Expr)) → Expr.EntriesFrom Token.WellSpelled entries →
    ItemsClear (ofValues entries)
  | [], _ => trivial
  | (_, value) :: rest, h => ⟨clear_ofExpr value h.1.2, clear_ofValues rest h.2⟩

end

theorem clear_ofExpr? {e : Option Expr} (h : Expr.OptionFrom Token.WellSpelled e) :
    (ofExpr? e).Clear := by
  cases e with
  | none => exact (rfl : Closed "nil")
  | some e => exact clear_ofExpr e (h e rfl)

theorem closed_alias : {space : Option Lexeme} →
    (∀ l, space = some l → l.NameFrom Token.WellSpelled) →
    Closed (match space with | some name => name.text | none => "nil")
  | none, _ => (rfl : Closed "nil")
  | some l, h => closed_of_wordlike (h l rfl).word.1

mutual

theorem clear_ofStmt : (s : Stmt) → s.From Token.WellSpelled → (ofStmt s).Clear
  | .expression value, h => ⟨rfl, ⟨rfl, clear_ofExpr value h⟩, trivial⟩
  | .print value, h => ⟨rfl, ⟨rfl, clear_ofExpr value h⟩, trivial⟩
  | .var _ _, h =>
    ⟨rfl, ⟨rfl, closed_of_wordlike h.1.word.1⟩, ⟨rfl, clear_ofExpr? h.2⟩, trivial⟩
  | .block body, h => ⟨rfl, ⟨rfl, clear_ofStmts body h⟩, trivial⟩
  | .branch condition whenTrue whenFalse, h =>
    ⟨rfl, ⟨rfl, clear_ofExpr condition h.1⟩, ⟨rfl, clear_ofStmt whenTrue h.2.1⟩,
      ⟨rfl, clear_ofStmt? whenFalse h.2.2⟩, trivial⟩
  | .loop condition body, h =>
    ⟨rfl, ⟨rfl, clear_ofExpr condition h.1⟩, ⟨rfl, clear_ofStmt body h.2⟩, trivial⟩
  | .leave _, _ => ⟨rfl, ⟨rfl, (rfl : Closed "break")⟩, trivial⟩
  | .yield _ _, h =>
    ⟨rfl, ⟨rfl, (rfl : Closed "return")⟩, ⟨rfl, clear_ofExpr? h.2⟩, trivial⟩
  | .function _ body, h =>
    ⟨rfl, ⟨rfl, closed_of_wordlike h.1.name.word.1⟩,
      ⟨rfl, clear_ofLexemes h.1.parameters⟩, ⟨rfl, clear_ofStmts body h.2⟩,
      ⟨rfl, clear_ofExprs _ h.1.before.conditions⟩,
      ⟨rfl, clear_ofExprs _ h.1.after.conditions⟩,
      ⟨rfl, clear_ofMessage h.1.before.message⟩,
      ⟨rfl, clear_ofMessage h.1.after.message⟩, trivial⟩
  | .contract kind _ _, h =>
    ⟨rfl, ⟨rfl, closed_contract kind⟩, ⟨rfl, clear_ofExprs _ h.2.conditions⟩,
      ⟨rfl, clear_ofMessage h.2.message⟩, trivial⟩
  | .load _ _ _, h =>
    ⟨rfl, ⟨rfl, closed_enclosed h.1.contentFrom.quoteless⟩,
      ⟨rfl, closed_alias h.2⟩, trivial⟩
  | .test _ _ body, h =>
    ⟨rfl, ⟨rfl, closed_enclosed h.1.contentFrom.quoteless⟩,
      ⟨rfl, clear_ofStmt body h.2⟩, trivial⟩

/-- The outlines of statements are clear, if their names and texts were written as such. -/
theorem clear_ofStmts : (body : List Stmt) → Stmt.AllFrom Token.WellSpelled body →
    ItemsClear (ofStmts body)
  | [], _ => trivial
  | s :: rest, h => ⟨clear_ofStmt s h.1, clear_ofStmts rest h.2⟩

theorem clear_ofStmt? : (s : Option Stmt) → Stmt.OptionFrom Token.WellSpelled s → (ofStmt? s).Clear
  | none, _ => (rfl : Closed "nil")
  | some s, h => clear_ofStmt s h

end

end Outline

end ContractScript
