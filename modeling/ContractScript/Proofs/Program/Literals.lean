/-
How the parser reads data.

Data are read as a primary expression, or as a minus before one, after every tier of
operators has been entered and has found nothing to do. Each of these productions
takes one level, so the levels that a text of data takes can be counted beforehand: a
list takes twelve more than the deepest of its items, a map thirteen more than the
deepest of its keys and values. With that many levels the parser does not run out,
and reports nothing.
-/
import ContractScript.Proofs.Program.Completeness
import ContractScript.Proofs.Program.Soundness
import ContractScript.Proofs.Value.Data

set_option autoImplicit false

namespace ContractScript.Parser

open Grammar

/-! ## Expressions without operators -/

section Operand

variable {depth : Nat} {ts after : List Token} {e : Expr}

theorem one_le_tierStrength (t : Tier) : 1 ≤ tierStrength t := by
  cases t <;> decide

theorem tier_of_tighter (t : Tier) {next : Tier} (ht : t.tighter? = some next)
    (h : Delivers False True (tier depth next) ts after e) (hafter : pull after < 1) :
    Delivers False True (tier (depth + 1) t) ts after e := by
  have weaker : pull after < tierStrength t := Nat.lt_of_lt_of_le hafter (one_le_tierStrength t)
  rw [tier, ht]
  exact .bindLast h (.total fun m _ => operators_none m weaker)

theorem factor_of_unary (h : Delivers False True (unary depth) ts after e)
    (hafter : pull after < 1) : Delivers False True (tier (depth + 1) .factor) ts after e := by
  have weaker := Nat.lt_of_lt_of_le hafter (one_le_tierStrength .factor)
  rw [tier]
  exact .bindLast h (.total fun m _ => operators_none m weaker)

/-- Where nothing binds to what was read, an expression is its first unary one. -/
theorem expression_of_unary (h : Delivers False True (unary depth) ts after e)
    (hafter : pull after < 1) : Delivers False True (expression (depth + 9)) ts after e := by
  have noQuestion : ¬StartsWith .question after :=
    not_startsWith_of_pull (Nat.lt_of_lt_of_le hafter (by decide))
  have noEqual : ¬StartsWith .equal after := not_startsWith_of_pull hafter
  -- the tiers from the tightest to the loosest
  have factor := factor_of_unary h hafter
  have term := tier_of_tighter .term rfl factor hafter
  have comparison := tier_of_tighter .comparison rfl term hafter
  have equality := tier_of_tighter .equality rfl comparison hafter
  have conjunction := tier_of_tighter .and rfl equality hafter
  have disjunction := tier_of_tighter .or rfl conjunction hafter
  rw [expression, assignment]
  refine .bindLast ?_ (.accept_none noEqual (.pure e))
  rw [choice]
  exact .bindLast disjunction (.accepted_no noQuestion (.pure e))

theorem unary_of_primary (hfirst : FirstIn startsOperand ts)
    (h : Delivers False True (primary depth) ts after e) (hafter : pull after < 1) :
    Delivers False True (unary (depth + 2)) ts after e := by
  rw [unary]
  refine .acceptMap_none (refuses_unaryOp? (hfirst.append after)) ?_
  rw [postfixed]
  exact .bindLast h (.total fun m _ => suffixes_none m (Nat.lt_of_lt_of_le hafter (by decide)))

end Operand

/-- Tokens that are read as an expression in a number of levels, wherever it may end. -/
structure ReadAs (depth : Nat) (ts : List Token) (e : Expr) : Prop where
  first : FirstIn startsExpression ts
  delivers : ∀ after, pull after < 1 → Delivers False True (expression depth) ts after e

theorem ReadAs.ofPrimary {depth : Nat} {ts : List Token} {e : Expr}
    (hfirst : FirstIn startsOperand ts)
    (h : ∀ after, Delivers False True (primary depth) ts after e) : ReadAs (depth + 11) ts e := by
  refine ⟨?_, fun after hafter => ?_⟩
  · obtain ⟨t, rest, rfl, ht⟩ := hfirst
    exact ⟨t, rest, rfl, by rw [startsExpression, ht]; rfl⟩
  · exact expression_of_unary (unary_of_primary hfirst (h after) hafter) hafter

/-! ## Constants -/

theorem startsOperand_of_literal {t : Token} {value : Literal} (h : literal? t = some value) :
    startsOperand t.kind = true := by
  cases literal?_eq_some.mp h with
  | falseWord hk | trueWord hk | nilWord hk | number hk | text hk => rw [hk]; rfl

theorem primary_literal {depth : Nat} {t : Token} {value : Literal} {after : List Token}
    (h : literal? t = some value) :
    Delivers False True (primary (depth + 1)) [t] after (.literal value) := by
  rw [primary]
  exact .acceptMap_some h (.pure _)

theorem readAs_literal {depth : Nat} {t : Token} {value : Literal} (h : literal? t = some value) :
    ReadAs (depth + 12) [t] (.literal value) :=
  .ofPrimary ⟨t, [], rfl, startsOperand_of_literal h⟩ fun _ => primary_literal h

/-- A minus before a constant. -/
theorem readAs_negated {depth : Nat} {minus t : Token} {value : Literal} (hm : minus.kind = .minus)
    (h : literal? t = some value) :
    ReadAs (depth + 13) [minus, t] (.unary .negate minus.place (.literal value)) := by
  refine ⟨⟨minus, [t], rfl, by rw [hm]; rfl⟩, fun after hafter => ?_⟩
  have operand : FirstIn startsOperand [t] := ⟨t, [], rfl, startsOperand_of_literal h⟩
  have constant : Delivers False True (unary (depth + 3)) [t] after (.literal value) :=
    unary_of_primary operand (primary_literal h) hafter
  have accepts : unaryOp? minus = some (.negate, minus.place) := by rw [unaryOp?, hm]
  have negated : Delivers False True (unary (depth + 4)) [minus, t] after
      (.unary .negate minus.place (.literal value)) := by
    rw [unary]
    exact .acceptMap_some accepts (.bindPure constant)
  exact expression_of_unary negated hafter

/-! ## Lists and maps -/

/-- Items between brackets or braces. -/
theorem itemsUntil_readAs {α : Type} {close : Token.Kind} {item : ParseM α}
    {G : List Token → α → Prop} {ts : List Token} {as : List α} {t : Token} (after : List Token)
    (hitem : ∀ ts a after, G ts a → pull after < 1 → Delivers False True item ts after a)
    (hfirst : ∀ ts a, G ts a → FirstIn startsExpression ts) (h : Items G ts as)
    (ht : t.kind = close) (hclose : startsExpression close = false) (hpull : strength close = 0)
    (hkind : close ≠ .comma) :
    Delivers False True (itemsUntil close (fun _ => pure ()) item) ts (t :: after) as := by
  refine .weaken (.itemsUntil (B := fun _ => True) (P := fun _ => True)
    (F := fun after => pull after < 1) (fun _ _ _ _ => .pure ()) hitem ?_ ?_ h ⟨t, after, rfl, ht⟩
    (pull_lt_of_kind ht hpull) hkind) ?_
  · -- an item ends at a comma as well as at the closing token
    exact fun comma rest hcomma => pull_lt_of_kind hcomma rfl
  · exact fun ts a rest hG => ((hfirst ts a hG).append rest).not_startsWith hclose
  · exact fun _ => ⟨fun _ _ => trivial, fun _ _ => trivial⟩

theorem readAs_list {depth : Nat} {opening close : Token} {ts : List Token} {es : List Expr}
    (hopen : opening.kind = .leftSquare) (h : Items (ReadAs depth) ts es)
    (hclose : close.kind = .rightSquare) :
    ReadAs (depth + 12) (opening :: (ts ++ [close])) (.list es) := by
  refine .ofPrimary ⟨opening, _, rfl, by rw [hopen]; rfl⟩ fun after => ?_
  have items := itemsUntil_readAs after (fun _ _ after hG hafter => hG.delivers after hafter)
    (fun _ _ hG => hG.first) h hclose rfl rfl (by decide)
  rw [primary]
  exact .acceptMap_none (refuses_literal? (by rw [hopen]; decide)) <|
    .skipAccept (by rw [hopen]; decide) <| .skipAccepted (by rw [hopen]; decide) <|
    .accepted_yes hopen (.bind items (.bindPure (.expect hclose)))

/-- Tokens that are read as a key and a value with a colon between them. -/
inductive PairReadAs (depth : Nat) : List Token → Expr × Expr → Prop
  | mk {ks vs : List Token} {colon : Token} {key value : Expr} : ReadAs depth ks key →
      colon.kind = .colon → ReadAs depth vs value → PairReadAs depth (ks ++ colon :: vs) (key, value)

theorem readAs_map {depth : Nat} {opening close : Token} {ts : List Token}
    {entries : List (Expr × Expr)} (hopen : opening.kind = .leftBrace)
    (h : Items (PairReadAs depth) ts entries) (hclose : close.kind = .rightBrace) :
    ReadAs (depth + 13) (opening :: (ts ++ [close])) (.map entries) := by
  refine .ofPrimary ⟨opening, _, rfl, by rw [hopen]; rfl⟩ fun after => ?_
  rw [primary]
  refine .acceptMap_none (refuses_literal? (by rw [hopen]; decide)) <|
    .skipAccept (by rw [hopen]; decide) <| .skipAccepted (by rw [hopen]; decide) <|
    .skipAccepted (by rw [hopen]; decide) <| .accepted_yes hopen ?_
  rw [mapEntries]
  refine .bind (itemsUntil_readAs after ?_ ?_ h hclose rfl rfl (by decide))
    (.bindPure (.expect hclose))
  · rintro ts entry after ⟨hkey, hcolon, hvalue⟩ hafter
    exact .bind (hkey.delivers _ (pull_lt_of_kind hcolon rfl))
      (.expecting hcolon (.bindPure (hvalue.delivers after hafter)))
  · rintro ts entry ⟨hkey, -, -⟩
    exact hkey.first.append _

end ContractScript.Parser

namespace ContractScript.Store

open ContractScript.Parser Grammar

/-! ## Data -/

/-- The greatest of some numbers. -/
def greatest (ns : List Nat) : Nat := ns.foldr max 0

theorem le_greatest {n : Nat} {ns : List Nat} (h : n ∈ ns) : n ≤ greatest ns := by
  induction ns with
  | nil => exact absurd h List.not_mem_nil
  | cons m ns ih =>
    show n ≤ max m (greatest ns)
    rcases List.mem_cons.mp h with rfl | h
    · exact Nat.le_max_left _ _
    · exact Nat.le_trans (ih h) (Nat.le_max_right _ _)

/-- The number of levels in which the text of data is read as an expression. -/
def readingLevels (s : Store) : Nat → Value → Nat
  | 0, _ => 0
  | depth + 1, v =>
    match v with
    | .num x => if Number.hasSign x then 13 else 12
    | .list id => greatest ((s.items id).toList.map (s.readingLevels depth)) + 12
    | .map id => greatest ((s.content id).entries.map fun e =>
        max (s.readingLevels depth e.2.key) (s.readingLevels depth e.2.value)) + 13
    | _ => 12

theorem twelve_le_readingLevels (s : Store) (levels : Nat) (v : Value) :
    12 ≤ s.readingLevels (levels + 1) v := by
  unfold readingLevels
  split
  · split <;> omega
  · omega
  · omega
  · exact Nat.le_refl _

theorem readingLevels_item {s : Store} (levels : Nat) {id : ListId} {w : Value}
    (h : w ∈ (s.items id).toList) :
    s.readingLevels levels w + 12 ≤ s.readingLevels (levels + 1) (.list id) := by
  have below := le_greatest (List.mem_map_of_mem (f := s.readingLevels levels) h)
  exact Nat.add_le_add_right below 12

theorem readingLevels_entry {s : Store} (levels : Nat) {id : MapId} {e : Key × Entry}
    (h : e ∈ (s.content id).entries) :
    s.readingLevels levels e.2.key + 13 ≤ s.readingLevels (levels + 1) (.map id) ∧
      s.readingLevels levels e.2.value + 13 ≤ s.readingLevels (levels + 1) (.map id) := by
  have below := le_greatest (List.mem_map_of_mem (f := fun e : Key × Entry =>
    max (s.readingLevels levels e.2.key) (s.readingLevels levels e.2.value)) h)
  obtain ⟨key, value⟩ := Nat.max_le.mp below
  exact ⟨Nat.add_le_add_right key 13, Nat.add_le_add_right value 13⟩

/-- The expressions that denote data. -/
def Denotes (s : Store) : Nat → Value → Expr → Prop
  | 0, _, _ => False
  | depth + 1, v, e =>
    match v with
    | .nil => e = .literal .nil
    | .bool b => e = .literal (.bool b)
    | .num x => e = .literal (.num x) ∨
        ∃ place y, e = .unary .negate place (.literal (.num y)) ∧ x = -y
    | .text t => e = .literal (.text t)
    | .list id => ∃ es, e = .list es ∧ List.Forall₂ (s.Denotes depth) (s.items id).toList es
    | .map id => ∃ ps, e = .map ps ∧ List.Forall₂ (fun entry p =>
        s.Denotes depth entry.2.key p.1 ∧ s.Denotes depth entry.2.value p.2)
        (s.content id).entries ps
    | .function _ => False
    | .native _ => False

section Tokens

variable {file : Option String}

theorem separated_of_items {α : Type} {G : List Token → α → Prop} {ts : List Token} {as : List α}
    (h : Items G ts as) (hne : as ≠ []) : Separated G ts as := by
  cases h with
  | none => exact absurd rfl hne
  | some h => exact h

/-- Things that are written with separators between them are read as items, if each is read. -/
theorem separated_tokens {ι α : Type} {f : ι → List Segment} {G : List Token → α → Prop}
    {D : ι → α → Prop} {xs : List ι}
    (h : ∀ x ∈ xs, ∀ line, ∃ a, G (Segment.tokensAt file line (f x)) a ∧ D x a) :
    ∀ line, ∃ as, Items G (Segment.tokensAt file line (separator.intercalate (xs.map f))) as ∧
      List.Forall₂ D xs as := by
  induction xs with
  | nil => exact fun _ => ⟨[], .none, .nil⟩
  | cons x rest ih =>
    intro line
    obtain ⟨a, ha, hd⟩ := h x List.mem_cons_self line
    cases rest with
    | nil =>
      rw [List.map_singleton, List.intercalate_singleton]
      exact ⟨[a], .some (.one ha), .cons hd .nil⟩
    | cons y rest =>
      obtain ⟨as, items, denoted⟩ := ih (fun x' hx' => h x' (List.mem_cons_of_mem _ hx'))
        (line + Segment.breaks ((f x).flatMap Segment.chars))
      have nonempty : as ≠ [] := by
        rintro rfl
        cases denoted
      rw [List.map_cons, List.map_cons, List.intercalate_cons_cons, List.append_assoc,
        Segment.tokensAt_append]
      -- the comma is a token, the blank behind it none
      exact ⟨a :: as, .some (.more ha rfl (separated_of_items items nonempty)), .cons hd denoted⟩

/-- Segments between two marks that are tokens. -/
theorem tokensAt_bracketed (line : Nat) (first last : Token.Kind) {c : Char} (d : Char)
    (hc : c ≠ '\n') (ps : List Segment) :
    Segment.tokensAt file line (⟨.token first, [c]⟩ :: (ps ++ [⟨.token last, [d]⟩]))
      = Segment.tokenAt file line first [c] :: (Segment.tokensAt file line ps
        ++ [Segment.tokenAt file (line + Segment.breaks (ps.flatMap Segment.chars)) last [d]]) := by
  have oneLine : Segment.breaks [c] = 0 := by
    unfold Segment.breaks
    rw [List.count_eq_zero, List.mem_singleton]
    exact fun h => hc h.symm
  rw [Segment.tokensAt_token, Segment.tokensAt_append, oneLine, Nat.add_zero]
  rfl

/-! ### Constants -/

theorem literal?_number (line : Nat) (cs : List Char) :
    literal? (Segment.tokenAt file line .number cs) = some (.num (Token.numberValue cs)) := by
  show some (Literal.num (Token.numberValue (String.ofList cs).toList)) = _
  rw [String.toList_ofList]

theorem literal?_text (line : Nat) (t : String) :
    literal? (Segment.tokenAt file line .text ('"' :: (t.toList ++ ['"']))) = some (.text t) := by
  have inside : Token.unquote ('"' :: (t.toList ++ ['"'])) = t.toList := by
    unfold Token.unquote
    rw [List.drop_succ_cons, List.drop_zero, List.dropLast_concat]
  show some (Literal.text (String.ofList (Token.unquote (String.ofList _).toList))) = _
  rw [String.toList_ofList, inside, String.ofList_toList]

/-- A number is read as a constant, or as a minus before the constant with the opposite value. -/
theorem readAs_number {x : Float} (h : Number.Written x) {depth : Nat}
    (enough : (if Number.hasSign x then 13 else 12) ≤ depth) (line : Nat) : ∃ e,
      ReadAs depth (Segment.tokensAt file line (numberPieces x)) e ∧
      (e = .literal (.num x) ∨
        ∃ place y, e = .unary .negate place (.literal (.num y)) ∧ x = -y) := by
  have value := h.value
  unfold numberPieces
  by_cases sign : Number.hasSign x = true
  · rw [if_pos sign] at enough value ⊢
    obtain ⟨depth, rfl⟩ : ∃ d, depth = d + 13 := ⟨depth - 13, by omega⟩
    exact ⟨_, readAs_negated rfl (literal?_number line _), .inr ⟨_, _, rfl, value⟩⟩
  · rw [if_neg sign] at enough value ⊢
    obtain ⟨depth, rfl⟩ : ∃ d, depth = d + 12 := ⟨depth - 12, by omega⟩
    exact ⟨_, readAs_literal (literal?_number line _), .inl (by rw [← value])⟩

/-! ### Values -/

/-- Data are read as an expression that denotes them. -/
theorem readAs_pieces (file : Option String) {s : Store} {levels : Nat} :
    ∀ {v : Value} {depth : Nat}, s.Data levels v →
    s.readingLevels levels v ≤ depth → ∀ line, ∃ e,
      ReadAs depth (Segment.tokensAt file line (s.pieces levels v)) e ∧ s.Denotes levels v e := by
  induction levels with
  | zero => exact fun h => h.elim
  | succ levels ih =>
    intro v depth h enough line
    have least := s.twelve_le_readingLevels levels v
    have twelve : ∃ d, depth = d + 12 := ⟨depth - 12, by omega⟩
    cases v with
    | nil =>
      obtain ⟨depth, rfl⟩ := twelve
      exact ⟨_, readAs_literal rfl, rfl⟩
    | bool b =>
      obtain ⟨depth, rfl⟩ := twelve
      cases b <;> exact ⟨_, readAs_literal rfl, rfl⟩
    | num x => exact readAs_number h enough line
    | text t =>
      obtain ⟨depth, rfl⟩ := twelve
      exact ⟨_, readAs_literal (literal?_text line t), rfl⟩
    | list id =>
      obtain ⟨depth, rfl⟩ := twelve
      have each : ∀ w ∈ (s.items id).toList, ∀ line, ∃ e,
          ReadAs depth (Segment.tokensAt file line (s.pieces levels w)) e ∧ s.Denotes levels w e := by
        intro w hw
        have below := readingLevels_item levels hw
        exact ih (h.2 w hw) (by omega)
      obtain ⟨es, items, denoted⟩ := separated_tokens each line
      refine ⟨.list es, ?_, es, rfl, denoted⟩
      rw [pieces, tokensAt_bracketed line _ _ _ (by decide)]
      exact readAs_list rfl items rfl
    | map id =>
      have thirteen : 13 ≤ depth := Nat.le_trans (Nat.le_add_left _ _) enough
      obtain ⟨depth, rfl⟩ : ∃ d, depth = d + 13 := ⟨depth - 13, by omega⟩
      have each : ∀ e ∈ (s.content id).entries, ∀ line, ∃ p,
          PairReadAs depth (Segment.tokensAt file line
            (s.pieces levels e.2.key ++ (pairing ++ s.pieces levels e.2.value))) p ∧
          s.Denotes levels e.2.key p.1 ∧ s.Denotes levels e.2.value p.2 := by
        intro e he line
        obtain ⟨belowKey, belowValue⟩ := readingLevels_entry levels he
        obtain ⟨dataKey, dataValue, -⟩ := h.2 e he
        have enoughKey : s.readingLevels levels e.2.key ≤ depth := by omega
        have enoughValue : s.readingLevels levels e.2.value ≤ depth := by omega
        obtain ⟨k, readKey, key⟩ := ih dataKey enoughKey line
        obtain ⟨v, readValue, value⟩ := ih dataValue enoughValue
          (line + Segment.breaks ((s.pieces levels e.2.key).flatMap Segment.chars))
        rw [Segment.tokensAt_append]
        -- the colon is a token, the blank behind it none, and neither starts a line
        exact ⟨(k, v), .mk readKey rfl readValue, key, value⟩
      obtain ⟨ps, items, denoted⟩ := separated_tokens each line
      refine ⟨.map ps, ?_, ps, rfl, denoted⟩
      rw [pieces, tokensAt_bracketed line _ _ _ (by decide)]
      exact readAs_map rfl items rfl
    | function id => exact h.elim
    | native f => exact h.elim

end Tokens

end ContractScript.Store

namespace ContractScript

open ContractScript.Parser Grammar

/-! ## A declaration of data -/

/-- A variable is declared, and nothing else. -/
theorem Program.parse_var {keepTests : Bool} {input : TokenList} {var name equals semicolon : Token}
    {ts : List Token} {e : Expr} (hinput : input.tokens = var :: name :: equals :: (ts ++ [semicolon]))
    (hvar : var.kind = .kwVar) (hname : name.kind = .identifier) (hequals : equals.kind = .equal)
    (hsemi : semicolon.kind = .semicolon) {depth : Nat} (h : ReadAs depth ts e)
    (hdepth : depth + 2 = nesting) :
    Program.parse keepTests input = ([.var name.lexeme (some e)], []) := by
  -- the production cannot run out of levels, so it takes all tokens and reports nothing
  have read : Delivers False True (declaration (Context.top keepTests) nesting)
      (var :: name :: equals :: (ts ++ [semicolon])) [] (some (.var name.lexeme (some e))) := by
    have value := h.delivers [semicolon] (pull_lt_of_kind hsemi rfl)
    rw [← hdepth, declaration]
    refine .recovering (.accepted_yes hvar (.bindPure ?_))
    rw [varDeclaration]
    exact .expecting hname (.bind (u := equals :: ts) (.following_some hequals value)
      (.bindPure (.expect hsemi)))
  have rest : (State.start input).rest = var :: name :: equals :: (ts ++ [semicolon]) := hinput
  have outcome := read (State.start input) (by rw [rest, List.append_nil])
  obtain ⟨rounds, rounds_eq⟩ : ∃ n, input.tokens.length = n + 1 := ⟨_, by rw [hinput]; rfl⟩
  -- the first round reads the declaration, the second one finds nothing more
  rcases declarations_run (declaration (Context.top keepTests) nesting) rounds rest with
    ⟨r, s₁, hr, run⟩ | ⟨stop, s₁, s₂, d, hr, -⟩
  · rw [hr] at outcome
    obtain ⟨rfl, behind, quiet⟩ := outcome
    have whole := run [] s₁ (declarations_nil behind)
    rw [← rounds_eq] at whole
    rw [Program.parse_run keepTests input whole, quiet trivial]
    rfl
  · -- there are enough levels
    rw [hr] at outcome
    exact outcome.1.elim

namespace Store

/-- The segments of `var x = v;`. -/
def declarationPieces (s : Store) (levels : Nat) (v : Value) : List Segment :=
  [⟨.token .kwVar, ['v', 'a', 'r']⟩, ⟨.blank, [' ']⟩, ⟨.token .identifier, ['x']⟩, ⟨.blank, [' ']⟩,
    ⟨.token .equal, ['=']⟩, ⟨.blank, [' ']⟩] ++ (s.pieces levels v ++ [⟨.token .semicolon, [';']⟩])

/-- The text of `var x = v;`. -/
def declarationText (s : Store) (levels : Nat) (v : Value) : String :=
  "var x = " ++ s.written levels v ++ ";"

theorem split_declarationText {s : Store} {levels : Nat} {v : Value} (h : s.Data levels v) :
    Segment.split (s.declarationText levels v).toList = s.declarationPieces levels v := by
  -- the semicolon ends the value, as a comma or a bracket would
  have value : Segment.Cuts (s.pieces levels v ++ [⟨.token .semicolon, [';']⟩]) [] :=
    .append (cuts_pieces h ⟨';', [], rfl, by decide⟩) (.single rfl)
  have blank : ∀ rest : List Char, Segment.Stops Segment.isWordPart (' ' :: rest) :=
    fun rest => Segment.Cuts.stops_cons (by decide)
  have cuts : Segment.Cuts (s.declarationPieces levels v) [] :=
    .cons (.word (fun _ => rfl) (by decide) (blank _)) <| .cons .blank <|
    .cons (.word (fun _ => rfl) (by decide) (blank _)) <| .cons .blank <| .cons .equal <|
    .cons .blank value
  have chars : (s.declarationText levels v).toList
      = (s.declarationPieces levels v).flatMap Segment.chars ++ [] := by
    simp [declarationText, declarationPieces, toList_written]
  rw [chars, cuts, Segment.split, List.append_nil]

theorem clean_declarationPieces (s : Store) (levels : Nat) (v : Value) :
    Segment.Clean (s.declarationPieces levels v) := by
  have value : Segment.Clean (s.pieces levels v ++ [⟨.token .semicolon, [';']⟩]) :=
    (clean_pieces s levels v).append (.token .nil)
  exact .token <| .blank <| .token <| .blank <| .token <| .blank value

theorem tokensAt_declarationPieces (s : Store) (levels : Nat) (v : Value) (file : Option String) :
    ∃ line, Segment.tokensAt file 1 (s.declarationPieces levels v)
      = Segment.tokenAt file 1 .kwVar ['v', 'a', 'r'] :: Segment.tokenAt file 1 .identifier ['x'] ::
        Segment.tokenAt file 1 .equal ['='] :: (Segment.tokensAt file 1 (s.pieces levels v)
          ++ [Segment.tokenAt file line .semicolon [';']]) := by
  refine ⟨1 + Segment.breaks ((s.pieces levels v).flatMap Segment.chars), ?_⟩
  rw [declarationPieces, Segment.tokensAt_append, Segment.tokensAt_append]
  rfl

end Store

/-- A declaration of data is scanned and parsed without a report, into a declaration of an
expression that denotes the data. -/
theorem Program.ofSource_declarationText {s : Store} {levels : Nat} {v : Value} (keepTests : Bool)
    (file : Option String) (h : s.Data levels v) (shallow : s.readingLevels levels v + 2 ≤ nesting) :
    ∃ e, s.Denotes levels v e ∧
      Program.ofSource keepTests file (s.declarationText levels v)
        = ([.var ⟨"x", ⟨file, 1⟩⟩ (some e)], []) := by
  obtain ⟨ending, scanned⟩ := Segment.scan_of_split file
    (Store.split_declarationText h) (Store.clean_declarationPieces s levels v)
  obtain ⟨line, tokens⟩ := Store.tokensAt_declarationPieces s levels v file
  obtain ⟨e, read, denoted⟩ := Store.readAs_pieces file h
    (Nat.le_sub_of_add_le shallow) 1
  have parsed : Program.parse keepTests ⟨Segment.tokensAt file 1 (s.declarationPieces levels v), ending⟩
      = ([.var (Segment.tokenAt file 1 .identifier ['x']).lexeme (some e)], []) :=
    Program.parse_var tokens rfl rfl rfl rfl read rfl
  refine ⟨e, denoted, ?_⟩
  unfold Program.ofSource
  rw [scanned]
  simp only [parsed, List.append_nil]
  rfl

end ContractScript
