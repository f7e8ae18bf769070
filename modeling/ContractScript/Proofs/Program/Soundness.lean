/-
What the parser reads without complaint, the grammar derives.

Productions call each other with one level less, so the statement for all of them
together is proved by induction on the number of levels. Each case composes the
readings of the parts and then names the rule of the grammar that they make up.
-/
import ContractScript.Proofs.Program.Lookahead
import ContractScript.Proofs.Program.Permitted
import ContractScript.Proofs.Program.Reading

set_option autoImplicit false

namespace ContractScript

namespace Parser

open Grammar

/-! ## Expressions -/

/-- Trees that a nonterminal derives and that keep to the limits. -/
def derived (G : List Token → Expr → Prop) : Lang Expr :=
  fun used _ e => G used e ∧ e.Permitted

/-- What a call reads after its opening parenthesis. -/
def callReads (callee : Expr) : Lang Expr := fun used _ e =>
  ∃ ts close items, used = ts ++ [close] ∧ Items Assignment ts items ∧ close.kind = .rightParen ∧
    e = .call callee close.place items ∧ items.length ≤ maxArguments ∧ Expr.AllPermitted items

/-- What a subscript reads after its opening bracket. -/
def subscriptReads (collection : Expr) (bracket : Place) : Lang Expr := fun used _ e =>
  (∃ ts close key, used = ts ++ [close] ∧ Assignment ts key ∧ close.kind = .rightSquare ∧
    e = .index collection bracket key ∧ key.Permitted) ∨
  (∃ ts colon us close first last, used = ts ++ colon :: (us ++ [close]) ∧ Assignment ts first ∧
    colon.kind = .colon ∧ Assignment us last ∧ close.kind = .rightSquare ∧
    e = .slice collection bracket first last ∧ first.Permitted ∧ last.Permitted)

/-- What a map reads after its opening brace. -/
def mapReads : Lang Expr := fun used _ e =>
  ∃ ts close entries, used = ts ++ [close] ∧ Items MapEntry ts entries ∧
    close.kind = .rightBrace ∧ e = .map entries ∧ Expr.EntriesPermitted entries

/-- The productions of expressions at one number of levels. -/
structure ExpressionsSound (depth : Nat) : Prop where
  expression : ∀ n, Sound n (expression depth) (derived Assignment)
  assignment : ∀ n, Sound n (assignment depth) (derived Assignment)
  choice : ∀ n, Sound n (choice depth) (derived Choice)
  tier : ∀ n t, Sound n (tier depth t) (derived (Level t))
  unary : ∀ n, Sound n (unary depth) (derived Unary)
  postfixed : ∀ n, Sound n (postfixed depth) (derived Postfixed)
  arguments : ∀ n callee, Sound n (arguments depth callee) (callReads callee)
  subscript : ∀ n collection bracket,
    Sound n (subscript depth collection bracket) (subscriptReads collection bracket)
  primary : ∀ n, Sound n (primary depth) (derived Primary)
  mapEntries : ∀ n, Sound n (mapEntries depth) mapReads

/-! ### Repetitions -/

/-- Operators after a left operand. -/
theorem operators_sound {t : Tier} {operand : ParseM Expr}
    (h : ∀ n, Sound n operand (derived (Operand t))) (rounds : Nat) :
    ∀ left, Sound (rounds + 1) (operators t operand rounds left)
      (fun used _ e => Operators t left used e ∧ (left.Permitted → e.Permitted)) := by
  induction rounds with
  | zero =>
    intro left
    refine (Sound.pure left).mono ?_
    rintro used after e ⟨rfl, rfl⟩
    exact ⟨.done, id⟩
  | succ rounds ih =>
    intro left
    refine Sound.mono (Sound.acceptMap
      (N := fun _ (join : Expr → Expr → Expr) => (derived (Operand t)).andThen fun right used _ e =>
        Operators t (join left right) used e ∧ ((join left right).Permitted → e.Permitted))
      (fun op join _ => Sound.bind (h _) fun right => ih (join left right)) (Sound.pure left)) ?_
    rintro used after e (⟨op, join, u, rfl, hf, right, v, w, rfl, ⟨hG, hP⟩, hrest, himp⟩ | ⟨-, rfl, rfl⟩)
    · -- what was read so far becomes the left operand of what follows
      obtain ⟨join', hj, rfl⟩ := Option.map_eq_some_iff.mp hf
      have hjoins := join?_eq_some.mp hj
      refine ⟨.more hjoins hG hrest, fun hleft => himp ?_⟩
      exact (hjoins.permitted_iff op.place left right).mpr ⟨hleft, hP⟩
    · exact ⟨.done, id⟩

/-- Names after a first one. -/
theorem qualifiers_sound (rounds : Nat) :
    Sound (rounds + 1) (qualifiers rounds) (fun used _ names =>
      (used = [] ∧ names = []) ∨ Led .doubleColon Path used names) := by
  induction rounds with
  | zero => exact (Sound.pure []).mono fun _ _ _ h => .inl h
  | succ rounds ih =>
    refine Sound.mono (Sound.accepted (Sound.bind (Sound.expect .identifier _) fun t =>
      Sound.bind ih fun names => Sound.pure (t.lexeme :: names)) (Sound.pure [])) ?_
    rintro used after names
      (⟨colons, u, rfl, hk, t, v, w, rfl, ⟨rfl, ht⟩, more, x, y, rfl, hmore, rfl, rfl⟩ | ⟨-, rfl, rfl⟩)
    · rw [List.append_nil]
      rcases hmore with ⟨rfl, rfl⟩ | hled
      · exact .inr (.mk hk (.one ht))
      · obtain ⟨hsep, hpath⟩ := hled
        exact .inr (.mk hk (.more ht hsep hpath))
    · exact .inl ⟨rfl, rfl⟩

/-- Calls and subscripts after an operand. -/
theorem suffixes_sound {call subscript : Expr → Place → ParseM Expr}
    (hcall : ∀ n callee place, Sound n (call callee place) (callReads callee))
    (hsubscript : ∀ n collection place,
      Sound n (subscript collection place) (subscriptReads collection place)) (rounds : Nat) :
    ∀ operand, Sound (rounds + 1) (suffixes call subscript rounds operand)
      (fun used _ e => Suffixes operand used e ∧ (operand.Permitted → e.Permitted)) := by
  -- in each round a call, an index or a slice goes around the operand so far
  induction rounds with
  | zero =>
    intro operand
    refine (Sound.pure operand).mono ?_
    rintro used after e ⟨rfl, rfl⟩
    exact ⟨.done, id⟩
  | succ rounds ih =>
    intro operand
    refine Sound.mono (Sound.accept (fun t _ => Sound.bind (hcall _ operand t.place) ih)
      (Sound.accept (fun t _ => Sound.bind (hsubscript _ operand t.place) ih)
        (Sound.pure operand))) ?_
    rintro used after e (⟨t, u, rfl, hk, node, v, w, rfl, hread, hrest, himp⟩ |
      ⟨-, ⟨t, u, rfl, hk, node, v, w, rfl, hread, hrest, himp⟩ | ⟨-, rfl, rfl⟩⟩)
    · obtain ⟨ts, close, items, rfl, hitems, hclose, rfl, hlength, hall⟩ := hread
      rw [List.append_assoc]
      refine ⟨.call hk hitems hclose hrest, fun hop => himp ?_⟩
      rw [Expr.Permitted]
      exact ⟨hop, hlength, hall⟩
    · rcases hread with ⟨ts, close, key, rfl, hkey, hclose, rfl, hP⟩ |
        ⟨ts, colon, us, close, first, last, rfl, hfirst, hcolon, hlast, hclose, rfl, hP, hP'⟩
      · rw [List.append_assoc]
        refine ⟨.index hk hkey hclose hrest, fun hop => himp ?_⟩
        rw [Expr.Permitted]
        exact ⟨hop, hP⟩
      · rw [List.append_assoc, List.cons_append, List.append_assoc]
        refine ⟨.slice hk hfirst hcolon hlast hclose hrest, fun hop => himp ?_⟩
        rw [Expr.Permitted]
        exact ⟨hop, hP, hP'⟩
    · exact ⟨.done, id⟩

/-- Items each of which was read while fewer than the limit had been are not too many. -/
theorem le_limit_of_counts {length limit : Nat} (h : ∀ i < length, i < limit) : length ≤ limit :=
  Nat.le_of_not_lt fun more => Nat.lt_irrefl limit (h limit more)

/-! ### One level -/

section Level

variable {depth : Nat} (ih : ExpressionsSound depth) (n : Nat)
include ih

omit ih in
/-- A target that is no plain name is reported, so it is not among the quiet readings. -/
theorem assigning_sound (equals : Token) (target value : Expr) :
    Sound n (assigning equals target value)
      (fun used _ e => used = [] ∧ ∃ name, target = .variable name ∧ e = .assign name value) := by
  unfold assigning
  split
  · exact (Sound.pure _).mono fun _ _ _ h => ⟨h.1, _, rfl, h.2⟩
  · refine Sound.mono (Sound.bind (Sound.complainAt equals .invalidTarget (M := fun _ _ _ => False))
      fun _ => Sound.pure target) ?_
    rintro used after e ⟨_, _, _, -, h, -⟩
    exact h.elim

theorem assignment_sound : Sound n (assignment (depth + 1)) (derived Assignment) := by
  rw [assignment]
  refine Sound.mono (Sound.bind (ih.choice n) fun target => Sound.accept
    (fun equals _ => Sound.bind (ih.assignment _) fun v => assigning_sound _ equals target v)
    (Sound.pure target)) ?_
  rintro used after e ⟨target, u, v, rfl, ⟨hG, hP⟩, h⟩
  rcases h with ⟨equals, w, rfl, hk, value, x, y, rfl, ⟨hG', hP'⟩, rfl, name, rfl, rfl⟩ | ⟨-, rfl, rfl⟩
  · -- a choice whose tree is a plain name is derived from a single token
    obtain ⟨t, rfl, ht, rfl⟩ := hG.eq_of_variable
    rw [List.append_nil]
    exact ⟨.assign ht hk hG', by rw [Expr.Permitted]; exact hP'⟩
  · rw [List.append_nil]
    exact ⟨.choice hG, hP⟩

theorem choice_sound : Sound n (choice (depth + 1)) (derived Choice) := by
  rw [choice]
  refine Sound.mono (Sound.bind (ih.tier n .or) fun c => Sound.accepted
    (Sound.bind (ih.choice _) fun t => Sound.bind (Sound.expect .colon _) fun _ =>
      Sound.bind (ih.choice _) fun f => Sound.pure (Expr.choice c t f))
    (Sound.pure c)) ?_
  rintro used after e ⟨c, u, v, rfl, ⟨hc, hcP⟩, h⟩
  rcases h with ⟨question, w, rfl, hq, t, ts, x, rfl, ⟨ht, htP⟩, colon, y, z, rfl, ⟨rfl, hcolon⟩,
    f, fs, y, rfl, ⟨hf, hfP⟩, rfl, rfl⟩ | ⟨-, rfl, rfl⟩
  · rw [List.append_nil]
    exact ⟨.choice hc hq ht hcolon hf, by rw [Expr.Permitted]; exact ⟨hcP, htP, hfP⟩⟩
  · rw [List.append_nil]
    exact ⟨.plain hc, hcP⟩

/-- The operand of a tier is the next tighter tier. -/
theorem operand_sound (t : Tier) : Sound n
    (match t.tighter? with
      | some next => tier depth next
      | none => unary depth) (derived (Operand t)) := by
  cases t with
  | or => exact (ih.tier n .and).mono fun _ _ _ h => ⟨.or h.1, h.2⟩
  | and => exact (ih.tier n .equality).mono fun _ _ _ h => ⟨.and h.1, h.2⟩
  | equality => exact (ih.tier n .comparison).mono fun _ _ _ h => ⟨.equality h.1, h.2⟩
  | comparison => exact (ih.tier n .term).mono fun _ _ _ h => ⟨.comparison h.1, h.2⟩
  | term => exact (ih.tier n .factor).mono fun _ _ _ h => ⟨.term h.1, h.2⟩
  | factor => exact (ih.unary n).mono fun _ _ _ h => ⟨.factor h.1, h.2⟩

theorem tier_sound (t : Tier) : Sound n (tier (depth + 1) t) (derived (Level t)) := by
  rw [tier]
  refine Sound.mono (Sound.bind (operand_sound ih n t) fun left => Sound.total fun m =>
    operators_sound (fun k => operand_sound ih k t) m left) ?_
  rintro used after e ⟨left, u, v, rfl, ⟨hleft, hP⟩, hops, himp⟩
  exact ⟨.mk hleft hops, himp hP⟩

theorem unary_sound : Sound n (unary (depth + 1)) (derived Unary) := by
  rw [unary]
  refine Sound.mono (Sound.acceptMap
    (fun _ (op : UnaryOp × Place) _ => Sound.bind (ih.unary _) fun e =>
      Sound.pure (Expr.unary op.1 op.2 e))
    (ih.postfixed n)) ?_
  rintro used after e (⟨t, op, u, rfl, hop, operand, v, w, rfl, ⟨hG, hP⟩, rfl, rfl⟩ | ⟨-, hG, hP⟩)
  · rw [List.append_nil]
    unfold unaryOp? at hop
    split at hop
    · rename_i hk
      cases hop
      exact ⟨.not hk hG, by rw [Expr.Permitted]; exact hP⟩
    · rename_i hk
      cases hop
      exact ⟨.negate hk hG, by rw [Expr.Permitted]; exact hP⟩
    · cases hop
  · exact ⟨.postfixed hG, hP⟩

theorem postfixed_sound : Sound n (postfixed (depth + 1)) (derived Postfixed) := by
  rw [postfixed]
  refine Sound.mono (Sound.bind (ih.primary n) fun operand => Sound.total fun m =>
    suffixes_sound (fun k callee _ => ih.arguments k callee) ih.subscript m operand) ?_
  rintro used after e ⟨operand, u, v, rfl, ⟨hG, hP⟩, hsuffixes, himp⟩
  exact ⟨.mk hG hsuffixes, himp hP⟩

theorem arguments_sound (callee : Expr) :
    Sound n (arguments (depth + 1) callee) (callReads callee) := by
  rw [arguments]
  refine Sound.mono (Sound.bind
    (Sound.itemsUntil (fun k count => Sound.limitCount .tooManyArguments count) ih.expression)
    fun items => Sound.bind (Sound.expect .rightParen _) fun close =>
      Sound.pure (Expr.call callee close.place items)) ?_
  rintro used after e ⟨items, u, v, rfl, ⟨hitems, hall, hcount⟩, close, w, x, rfl, ⟨rfl, hk⟩,
    rfl, rfl⟩
  exact ⟨u, close, items, by rw [List.append_nil], hitems, hk, rfl, le_limit_of_counts hcount,
    (Expr.allPermitted_iff items).mpr hall⟩

theorem subscript_sound (collection : Expr) (bracket : Place) :
    Sound n (subscript (depth + 1) collection bracket) (subscriptReads collection bracket) := by
  rw [subscript]
  refine Sound.mono (Sound.bind (ih.expression n) fun first => Sound.accepted
    (Sound.bind (ih.expression _) fun last => Sound.bind (Sound.expect .rightSquare _) fun _ =>
      Sound.pure (Expr.slice collection bracket first last))
    (Sound.bind (Sound.expect .rightSquare _) fun _ =>
      Sound.pure (Expr.index collection bracket first))) ?_
  rintro used after e ⟨first, u, v, rfl, ⟨hG, hP⟩, h⟩
  rcases h with ⟨colon, w, rfl, hcolon, last, x, y, rfl, ⟨hG', hP'⟩, close, z, z', rfl, ⟨rfl, hk⟩,
    rfl, rfl⟩ | ⟨-, close, w, x, rfl, ⟨rfl, hk⟩, rfl, rfl⟩
  · rw [List.append_nil]
    exact .inr ⟨u, colon, x, close, first, last, rfl, hG, hcolon, hG', hk, rfl, hP, hP'⟩
  · rw [List.append_nil]
    exact .inl ⟨u, close, first, rfl, hG, hk, rfl, hP⟩

theorem mapEntries_sound : Sound n (mapEntries (depth + 1)) mapReads := by
  have entry : ∀ m, Sound m
      (do
        let key ← expression depth
        let _ ← expect .colon "':' after map key"
        let value ← expression depth
        return (key, value))
      (fun used _ e => MapEntry used e ∧ e.1.Permitted ∧ e.2.Permitted) := by
    intro m
    refine Sound.mono (Sound.bind (ih.expression m) fun key => Sound.bind (Sound.expect .colon _)
      fun _ => Sound.bind (ih.expression m) fun value => Sound.pure (key, value)) ?_
    rintro used after e ⟨key, u, v, rfl, ⟨hG, hP⟩, colon, w, x, rfl, ⟨rfl, hk⟩, value, y, z, rfl,
      ⟨hG', hP'⟩, rfl, rfl⟩
    rw [List.append_nil]
    exact ⟨.mk hG hk hG', hP, hP'⟩
  rw [mapEntries]
  refine Sound.mono (Sound.bind
    (Sound.itemsUntil (B := fun _ => True)
      (fun k _ => (Sound.pure ()).mono fun _ _ _ h => ⟨h.1, trivial⟩) entry)
    fun entries => Sound.bind (Sound.expect .rightBrace _) fun _ =>
      Sound.pure (Expr.map entries)) ?_
  rintro used after e ⟨entries, u, v, rfl, ⟨hitems, hall, -⟩, close, w, x, rfl, ⟨rfl, hk⟩,
    rfl, rfl⟩
  exact ⟨u, close, entries, by rw [List.append_nil], hitems, hk, rfl,
    (Expr.entriesPermitted_iff entries).mpr hall⟩

omit ih in
/-- A name and the names behind it make up a plain or a qualified name. -/
theorem primary_nameExpr {t : Token} {used : List Token} {names : List Lexeme}
    (ht : t.kind = .identifier)
    (h : (used = [] ∧ names = []) ∨ Led .doubleColon Path used names) :
    Primary (t :: used) (nameExpr t.lexeme names) ∧ (nameExpr t.lexeme names).Permitted := by
  rcases h with ⟨rfl, rfl⟩ | h
  · exact ⟨.name ht, trivial⟩
  · cases h with
    | @mk sep ts _ hsep hpath =>
      have nonempty : names ≠ [] := by
        cases hpath <;> exact List.cons_ne_nil _ _
      have last : names.getLast? = some (names.getLast nonempty) :=
        List.getLast?_eq_some_getLast nonempty
      have split : t.lexeme :: names
          = (t.lexeme :: names.dropLast) ++ [names.getLast nonempty] := by
        rw [List.cons_append, List.dropLast_concat_getLast]
      have whole : Path (t :: sep :: ts) (t.lexeme :: names) := .more ht hsep hpath
      rw [nameExpr, last]
      rw [split] at whole
      exact ⟨.qualified whole (List.cons_ne_nil _ _), trivial⟩

theorem primary_sound : Sound n (primary (depth + 1)) (derived Primary) := by
  rw [primary]
  refine Sound.mono (Sound.acceptMap (fun _ value _ => Sound.pure (Expr.literal value))
    (Sound.accept (fun name _ => Sound.total fun m => Sound.bind (qualifiers_sound m) fun more =>
        Sound.pure (nameExpr name.lexeme more))
      (Sound.accepted (Sound.bind (ih.expression _) fun inner =>
          Sound.bind (Sound.expect .rightParen _) fun _ => Sound.pure (Expr.group inner))
        (Sound.accepted (Sound.bind (Sound.itemsUntil (B := fun _ => True)
            (fun k _ => (Sound.pure ()).mono fun _ _ _ h => ⟨h.1, trivial⟩) ih.expression)
            fun items => Sound.bind (Sound.expect .rightSquare _) fun _ =>
              Sound.pure (Expr.list items))
          (Sound.accepted (ih.mapEntries _)
            (Sound.acceptMap (N := fun _ _ _ _ _ => False) (M := fun _ _ _ => False)
              (fun t t' _ => Sound.giveUp (complains_complainAt t' _))
              (Sound.fail (.expect "expression")))))))) ?_
  -- the productions in the order in which they are tried; what is left over is a fault
  rintro used after e (⟨t, value, u, rfl, hf, rfl, rfl⟩ | ⟨-, h⟩)
  · exact ⟨.literal (literal?_eq_some.mp hf), trivial⟩
  rcases h with ⟨t, u, rfl, ht, names, v, w, rfl, hnames, rfl, rfl⟩ | ⟨-, h⟩
  · rw [List.append_nil]
    exact primary_nameExpr ht hnames
  rcases h with ⟨t, u, rfl, ht, inner, v, w, rfl, ⟨hG, hP⟩, close, x, y, rfl, ⟨rfl, hk⟩, rfl, rfl⟩ |
    ⟨-, h⟩
  · rw [List.append_nil]
    exact ⟨.group ht hG hk, by rw [Expr.Permitted]; exact hP⟩
  rcases h with ⟨t, u, rfl, ht, items, v, w, rfl, ⟨hitems, hall, -⟩, close, x, y, rfl, ⟨rfl, hk⟩,
    rfl, rfl⟩ | ⟨-, h⟩
  · rw [List.append_nil]
    exact ⟨.list ht hitems hk, by rw [Expr.Permitted]; exact (Expr.allPermitted_iff items).mpr hall⟩
  rcases h with ⟨t, u, rfl, ht, ts, close, entries, rfl, hentries, hk, rfl, hP⟩ | ⟨-, h⟩
  · exact ⟨.map ht hentries hk, by rw [Expr.Permitted]; exact hP⟩
  · rcases h with ⟨t, t', u, -, -, h⟩ | ⟨-, h⟩
    · exact h.elim
    · exact h.elim

theorem expression_sound : Sound n (expression (depth + 1)) (derived Assignment) := by
  rw [expression]
  exact ih.assignment n

end Level

theorem expressionsSound (depth : Nat) : ExpressionsSound depth := by
  induction depth with
  | zero =>
    exact ⟨fun _ => .outOfLevels, fun _ => .outOfLevels, fun _ => .outOfLevels,
      fun _ _ => .outOfLevels, fun _ => .outOfLevels, fun _ => .outOfLevels,
      fun _ _ => .outOfLevels, fun _ _ _ => .outOfLevels, fun _ => .outOfLevels,
      fun _ => .outOfLevels⟩
  | succ depth ih =>
    exact
      { expression := expression_sound ih
        assignment := assignment_sound ih
        choice := choice_sound ih
        tier := tier_sound ih
        unary := unary_sound ih
        postfixed := postfixed_sound ih
        arguments := arguments_sound ih
        subscript := subscript_sound ih
        primary := primary_sound ih
        mapEntries := mapEntries_sound ih }

/-! ## Contracts -/

theorem messageNext_sound (n : Nat) (ends : List Token.Kind) :
    Sound n (messageNext ends)
      (fun used after b => used = [] ∧ (b = true ↔ MessageNext ends after)) := by
  constructor
  · intro s
    obtain ⟨b, run, -⟩ := messageNext_run ends s
    rw [run]
    exact State.Later.refl s
  · intro s b s' _ hp _
    obtain ⟨b', run, hb⟩ := messageNext_run ends s
    rw [run] at hp
    cases hp
    exact ⟨[], rfl, rfl, hb⟩

/-- The clauses of a contract: a message alone, or conditions and perhaps a message. That a lone
text in last place is no condition shows only once the list has ended where it should. -/
def clauseReads (ends : List Token.Kind) : Lang (List Expr × Option Token) := fun used after r =>
  (∃ t : Token, used = [t] ∧ t.kind = .text ∧ r = ([], some t)) ∨
  (Expr.AllPermitted r.1 ∧ (EndsIn ends after → Conditions used r.1 r.2))

theorem clauseItems_sound {ends : List Token.Kind} {condition : ParseM Expr}
    (h : ∀ n, Sound n condition (derived Assignment)) (rounds : Nat) :
    Sound rounds (clauseItems ends condition rounds) (clauseReads ends) := by
  induction rounds with
  | zero => exact .noRounds (Sound.pure (n := 0) ([], none)).steady
  | succ rounds ih =>
    refine Sound.mono (Sound.bind (messageNext_sound _ ends) (N := fun b used after r =>
      (b = true ↔ MessageNext ends (used ++ after)) → clauseReads ends used after r) ?body) ?_
    case body =>
      intro b
      cases b with
      | true =>
        refine Sound.mono (Sound.accept (fun t _ => Sound.pure ([], some t))
          (Sound.pure ([], none))) ?_
        rintro used after r (⟨t, u, rfl, hk, rfl, rfl⟩ | ⟨hno, rfl, rfl⟩) hb
        · exact .inl ⟨t, rfl, hk, rfl⟩
        · -- a message was seen, so there is a text to take
          obtain ⟨t, rest, hs, hk, -⟩ := hb.mp rfl
          exact absurd ⟨t, rest, hs, hk⟩ hno
      | false =>
        refine Sound.mono (Sound.bind (h _) fun first => Sound.accepted
          (Sound.bind ih fun r => Sound.pure (first :: r.1, r.2))
          (Sound.pure ([first], none))) ?_
        rintro used after r ⟨first, u, v, rfl, ⟨hG, hP⟩, hr⟩ hb
        rcases hr with ⟨comma, w, rfl, hk, r', x, y, rfl, hr', rfl, rfl⟩ | ⟨-, rfl, rfl⟩
        · rw [List.append_nil]
          rcases hr' with ⟨t, rfl, ht, rfl⟩ | ⟨hall, hcond⟩
          · exact .inr ⟨⟨hP, trivial⟩, fun _ => .message hG hk ht⟩
          · exact .inr ⟨⟨hP, hall⟩, fun hend => .more hG hk (hcond hend)⟩
        · rw [List.append_nil]
          -- a lone text before the end would have been seen as a message
          refine .inr ⟨⟨hP, trivial⟩, fun hend => .last hG ?_⟩
          rintro ⟨t, rfl, ht⟩
          rw [List.append_nil] at hb
          exact absurd (hb.mpr ⟨t, after, rfl, ht, hend⟩) Bool.false_ne_true
    rintro used after r ⟨b, u, v, rfl, ⟨rfl, hb⟩, hr⟩
    exact hr hb

/-- What a contract reads, provided it ends where it should. -/
def clausesRead (ends : List Token.Kind) (G : List Token → Clauses → Prop) : Lang Clauses :=
  fun used after c => c.Permitted ∧ (EndsIn ends after → G used c)

theorem clauses_sound (n : Nat) (ends : List Token.Kind) (depth : Nat) :
    Sound n (clauses ends depth) (clausesRead ends ContractClauses) := by
  cases depth with
  | zero => exact .outOfLevels
  | succ depth =>
    rw [clauses]
    refine Sound.mono (Sound.total fun m => Sound.bind
      (clauseItems_sound (expressionsSound depth).expression (m + 1))
      (N := fun r used _ (c : Clauses) =>
        used = [] ∧ c = ⟨r.1, r.2.map Token.content⟩ ∧ ∀ t, r ≠ ([], some t)) ?finish) ?_
    case finish =>
      -- only a message without conditions is refused
      rintro ⟨_ | ⟨e, es⟩, _ | t⟩
      · exact (Sound.pure _).mono fun _ _ _ h => ⟨h.1, h.2, fun t => by simp⟩
      · exact Sound.giveUp (complains_complainAt t .noCondition)
      · exact (Sound.pure _).mono fun _ _ _ h => ⟨h.1, h.2, fun t => by simp⟩
      · exact (Sound.pure _).mono fun _ _ _ h => ⟨h.1, h.2, fun t => by simp⟩
    rintro used after c ⟨r, u, v, rfl, hr, rfl, rfl, hne⟩
    rw [List.append_nil]
    rcases hr with ⟨t, rfl, -, rfl⟩ | ⟨hall, hcond⟩
    · exact absurd rfl (hne t)
    · exact ⟨hall, fun hend => .mk (hcond hend)⟩

theorem functionClauses_sound (n : Nat) (kind : Token.Kind) (word : String)
    (ends : List Token.Kind) (depth : Nat) :
    Sound n (functionClauses kind word ends depth) (clausesRead ends (FunctionClauses kind)) := by
  rw [functionClauses]
  refine Sound.mono (Sound.accepted (Sound.bind (Sound.expect .colon _) fun _ =>
    clauses_sound _ ends depth) (Sound.pure Clauses.none)) ?_
  rintro used after c (⟨t, u, rfl, hk, colon, v, w, rfl, ⟨rfl, hcolon⟩, hP, hG⟩ | ⟨-, rfl, rfl⟩)
  · exact ⟨hP, fun hend => .some hk hcolon (hG hend)⟩
  · exact ⟨trivial, fun _ => .none⟩

/-! ## Statements -/

/-- What a statement reads in a context. If the statement could take an `else`, none follows. -/
def statementReads (context : Context) : Lang Stmt := fun used after s =>
  ∃ takesElse, Statement takesElse used s ∧ s.Permitted context.inLoop context.inFunction ∧
    (takesElse = true → ¬StartsWith .kwElse after)

/-- What a statement reads behind its first word. -/
def behind (kind : Token.Kind) (context : Context) : Lang Stmt := fun used after s =>
  ∀ keyword : Token, keyword.kind = kind → statementReads context (keyword :: used) after s

/-- What a block reads after its opening brace. -/
def blockReads (context : Context) : Lang (List Stmt) := fun used _ body =>
  ∃ ts close, used = ts ++ [close] ∧ Declarations ts body ∧ close.kind = .rightBrace ∧
    Stmt.AllPermitted context.inLoop context.inFunction body

/-- What a declaration reads. -/
def declarationReads (context : Context) : Lang (Option Stmt) := fun used _ r =>
  ∃ s, r = some s ∧ Declaration used s ∧ s.Permitted context.inLoop context.inFunction

/-- A statement without `if` at its end is read the same whatever follows. -/
theorem statementReads_of_closed {context : Context} {used after : List Token} {s : Stmt}
    (h : Statement false used s) (hP : s.Permitted context.inLoop context.inFunction) :
    statementReads context used after s :=
  ⟨false, h, hP, fun h => absurd h Bool.false_ne_true⟩

theorem varDeclaration_sound (n depth : Nat) :
    Sound n (varDeclaration depth) (fun used _ s =>
      VarDeclaration used s ∧ ∀ inLoop inFunction, s.Permitted inLoop inFunction) := by
  cases depth with
  | zero => exact .outOfLevels
  | succ depth =>
    rw [varDeclaration]
    refine Sound.mono (Sound.bind (Sound.expect .identifier _) fun name =>
      Sound.bind (Sound.following ((expressionsSound depth).expression _)) fun value =>
        Sound.bind (Sound.expect .semicolon _) fun _ => Sound.pure (Stmt.var name.lexeme value)) ?_
    rintro used after s ⟨name, u, v, rfl, ⟨rfl, hname⟩, value, w, x, rfl, hvalue, semicolon, y, z,
      rfl, ⟨rfl, hsemi⟩, rfl, rfl⟩
    rw [List.append_nil]
    rcases hvalue with ⟨t, ts, e, rfl, hk, rfl, hG, hP⟩ | ⟨rfl, rfl, -⟩
    · refine ⟨.mk hname (.some (.mk hk hG)) hsemi, fun _ _ => ?_⟩
      rw [Stmt.Permitted]
      exact hP
    · refine ⟨.mk hname .none hsemi, fun _ _ => ?_⟩
      rw [Stmt.Permitted]
      trivial

theorem expressionStatement_sound (n depth : Nat) :
    Sound n (expressionStatement depth) (fun used _ s =>
      ExpressionStatement used s ∧ ∀ inLoop inFunction, s.Permitted inLoop inFunction) := by
  cases depth with
  | zero => exact .outOfLevels
  | succ depth =>
    rw [expressionStatement]
    refine Sound.mono (Sound.bind ((expressionsSound depth).expression n) fun e =>
      Sound.bind (Sound.expect .semicolon _) fun _ => Sound.pure (Stmt.expression e)) ?_
    rintro used after s ⟨e, u, v, rfl, ⟨hG, hP⟩, semicolon, w, x, rfl, ⟨rfl, hsemi⟩, rfl, rfl⟩
    rw [List.append_nil]
    refine ⟨.mk hG hsemi, fun _ _ => ?_⟩
    rw [Stmt.Permitted]
    exact hP

theorem printStatement_sound (n depth : Nat) (context : Context) :
    Sound n (printStatement depth) (behind .kwPrint context) := by
  cases depth with
  | zero => exact .outOfLevels
  | succ depth =>
    rw [printStatement]
    refine Sound.mono (Sound.bind ((expressionsSound depth).expression n) fun e =>
      Sound.bind (Sound.expect .semicolon _) fun _ => Sound.pure (Stmt.print e)) ?_
    rintro used after s ⟨e, u, v, rfl, ⟨hG, hP⟩, semicolon, w, x, rfl, ⟨rfl, hsemi⟩, rfl, rfl⟩ keyword hk
    rw [List.append_nil]
    exact statementReads_of_closed (.print hk hG hsemi) (by rw [Stmt.Permitted]; exact hP)

theorem leaveStatement_sound (n : Nat) (context : Context) (keyword : Token)
    (hk : keyword.kind = .kwBreak) :
    Sound n (leaveStatement context keyword)
      (fun used after s => statementReads context (keyword :: used) after s) := by
  rw [leaveStatement]
  refine Sound.mono (Sound.bind (Sound.expect .semicolon _) fun _ =>
    Sound.bind (Sound.complainUnless context.inLoop keyword _) fun _ =>
      Sound.pure (Stmt.leave keyword.place)) ?_
  rintro used after s ⟨semicolon, u, v, rfl, ⟨rfl, hsemi⟩, _, w, x, rfl, ⟨rfl, hloop⟩, rfl, rfl⟩
  exact statementReads_of_closed (.leave hk hsemi) (by rw [Stmt.Permitted]; exact hloop)

/-- A part that may be missing, as the grammar has it. -/
theorem optional_of_reads {used after : List Token} {r : Option Expr}
    (h : (∃ e, r = some e ∧ derived Assignment used after e) ∨ (used = [] ∧ r = none)) :
    Optional Expression used r ∧ Expr.OptionPermitted r := by
  rcases h with ⟨e, rfl, hG, hP⟩ | ⟨rfl, rfl⟩
  · exact ⟨.some hG, hP⟩
  · exact ⟨.none, trivial⟩

theorem yieldStatement_sound (n depth : Nat) (context : Context) (keyword : Token)
    (hk : keyword.kind = .kwReturn) :
    Sound n (yieldStatement context keyword depth)
      (fun used after s => statementReads context (keyword :: used) after s) := by
  cases depth with
  | zero => exact .outOfLevels
  | succ depth =>
    rw [yieldStatement]
    refine Sound.mono (Sound.bind (Sound.complainUnless context.inFunction keyword _) fun _ =>
      Sound.bind (Sound.itemUnless ((expressionsSound depth).expression n)) fun value =>
        Sound.bind (Sound.expect .semicolon _) fun _ =>
          Sound.pure (Stmt.yield keyword.place value)) ?_
    rintro used after s ⟨_, u, v, rfl, ⟨rfl, hin⟩, value, w, x, rfl, hvalue, semicolon, y, z, rfl,
      ⟨rfl, hsemi⟩, rfl, rfl⟩
    obtain ⟨hG, hP⟩ := optional_of_reads hvalue
    rw [List.append_nil]
    exact statementReads_of_closed (.yield hk hG hsemi) (by rw [Stmt.Permitted]; exact ⟨hin, hP⟩)

theorem contractStatement_sound (n depth : Nat) (context : Context) (kind : ContractKind)
    (word : Token) (hword : ContractWord word kind) :
    Sound n (contractStatement kind word.place depth)
      (fun used after s => statementReads context (word :: used) after s) := by
  cases depth with
  | zero => exact .outOfLevels
  | succ depth =>
    rw [contractStatement]
    refine Sound.mono (Sound.bind (Sound.expect .colon _) fun _ =>
      Sound.bind (clauses_sound n [.semicolon] depth) fun found =>
        Sound.bind (Sound.expect .semicolon _) fun _ =>
          Sound.pure (Stmt.contract kind word.place found)) ?_
    rintro used after s ⟨colon, u, v, rfl, ⟨rfl, hcolon⟩, found, w, x, rfl, ⟨hP, hG⟩, semicolon, y, z,
      rfl, ⟨rfl, hsemi⟩, rfl, rfl⟩
    have ends : EndsIn [.semicolon] ([semicolon] ++ [] ++ after) :=
      ⟨.semicolon, List.mem_singleton.mpr rfl, semicolon, after, rfl, hsemi⟩
    rw [List.append_nil]
    exact statementReads_of_closed (.contract hword hcolon (hG ends) hsemi)
      (by rw [Stmt.Permitted]; exact hP)

theorem loadStatement_sound (n : Nat) (context : Context) :
    Sound n loadStatement (behind .kwImport context) := by
  rw [loadStatement]
  refine Sound.mono (Sound.bind (Sound.expect .text _) fun path =>
    Sound.bind (Sound.following (Sound.expect .identifier _)) fun space =>
      Sound.bind (Sound.expect .semicolon _) fun _ =>
        Sound.pure (Stmt.load path.content path.place (space.map Token.lexeme))) ?_
  rintro used after s ⟨path, u, v, rfl, ⟨rfl, hpath⟩, space, w, x, rfl, hspace, semicolon, y, z,
    rfl, ⟨rfl, hsemi⟩, rfl, rfl⟩ keyword hk
  rw [List.append_nil]
  have named : Optional (Led .kwAs Identifier) w (space.map Token.lexeme) := by
    rcases hspace with ⟨t, ts, name, rfl, hk', rfl, rfl, hname⟩ | ⟨rfl, rfl, -⟩
    · exact .some (.mk hk' (.mk hname))
    · exact .none
  exact statementReads_of_closed (.load hk hpath named hsemi) (by rw [Stmt.Permitted]; trivial)

theorem loopStart_sound (n depth : Nat) :
    Sound n (loopStart depth) (fun used _ r => LoopStart used r ∧
      ∀ inLoop inFunction, Stmt.OptionPermitted inLoop inFunction r) := by
  rw [loopStart]
  refine Sound.mono (Sound.accepted (Sound.pure none) (Sound.accepted
    (Sound.bind (varDeclaration_sound _ depth) fun s => Sound.pure (some s))
    (Sound.bind (expressionStatement_sound _ depth) fun s => Sound.pure (some s)))) ?_
  rintro used after r (⟨t, u, rfl, hk, rfl, rfl⟩ | ⟨-, h⟩)
  · exact ⟨.none hk, fun _ _ => trivial⟩
  · rcases h with ⟨t, u, rfl, hk, s, v, w, rfl, ⟨hG, hP⟩, rfl, rfl⟩ |
      ⟨-, s, v, w, rfl, ⟨hG, hP⟩, rfl, rfl⟩
    · rw [List.append_nil]
      exact ⟨.var hk hG, hP⟩
    · rw [List.append_nil]
      exact ⟨.expression hG, hP⟩

theorem identifiers_of_names {ts : List Token} {names : List Token}
    (h : Items (fun ts t => ts = [t] ∧ t.kind = .identifier) ts names) :
    Items Identifier ts (names.map Token.lexeme) := by
  cases h with
  | none => exact .none
  | some h =>
    refine .some ?_
    induction h with
    | one h =>
      obtain ⟨rfl, hk⟩ := h
      exact .one (.mk hk)
    | more h hcomma _ ih =>
      obtain ⟨rfl, hk⟩ := h
      exact .more (.mk hk) hcomma ih

theorem signature_sound (n depth : Nat) :
    Sound n (signature depth) (fun used _ s => ∃ ts opening, used = ts ++ [opening] ∧
      FunctionSignature ts s ∧ opening.kind = .leftBrace ∧ s.Permitted) := by
  rw [signature]
  refine Sound.mono (Sound.bind (Sound.expect .identifier _) fun name =>
    Sound.bind (Sound.expect .leftParen _) fun _ =>
    Sound.bind (Sound.itemsUntil (G := fun ts t => ts = [t] ∧ t.kind = .identifier)
      (P := fun _ => True) (fun k count => Sound.limitCount .tooManyParameters count)
      fun k => (Sound.expect .identifier _).mono fun _ _ _ h => ⟨h, trivial⟩) fun parameters =>
    Sound.bind (Sound.expect .rightParen _) fun _ =>
    Sound.bind (functionClauses_sound _ .kwPrecondition _ _ depth) fun before =>
    Sound.bind (functionClauses_sound _ .kwPostcondition _ _ depth) fun after =>
    Sound.bind (Sound.expect .leftBrace _) fun _ =>
      Sound.pure (Signature.mk name.lexeme (parameters.map Token.lexeme) before after)) ?_
  rintro used rest s ⟨name, _, _, rfl, ⟨rfl, hname⟩, opening, _, _, rfl, ⟨rfl, hopening⟩,
    parameters, ps, _, rfl, ⟨hparameters, -, hcount⟩, close, _, _, rfl, ⟨rfl, hclose⟩,
    before, bs, _, rfl, ⟨hbeforeP, hbefore⟩, after, as, _, rfl, ⟨hafterP, hafter⟩,
    brace, _, _, rfl, ⟨rfl, hbrace⟩, rfl, rfl⟩
  have endsAfter : EndsIn [.leftBrace] ([brace] ++ [] ++ rest) :=
    ⟨.leftBrace, List.mem_singleton.mpr rfl, brace, rest, rfl, hbrace⟩
  -- a precondition ends at the postcondition if there is one, else at the body
  have endsBefore : EndsIn [.kwPostcondition, .leftBrace] (as ++ ([brace] ++ []) ++ rest) := by
    cases hafter endsAfter with
    | none =>
      exact ⟨.leftBrace, List.mem_cons_of_mem _ (List.mem_singleton.mpr rfl), brace, rest, rfl, hbrace⟩
    | some hword _ _ => exact ⟨.kwPostcondition, List.mem_cons_self, _, _, rfl, hword⟩
  refine ⟨name :: opening :: (ps ++ close :: (bs ++ as)), brace, ?_, ?_, hbrace, ?_, hbeforeP, hafterP⟩
  · simp only [List.cons_append, List.nil_append, List.append_nil, List.append_assoc]
  · exact .mk hname hopening (identifiers_of_names hparameters) hclose (hbefore endsBefore)
      (hafter endsAfter)
  · rw [List.length_map]
    exact le_limit_of_counts hcount

/-- What a function or test reads behind its keyword. -/
def behindDeclaring (kind : Token.Kind) (context : Context) : Lang Stmt := fun used _ s =>
  ∀ keyword : Token, keyword.kind = kind →
    Declaration (keyword :: used) s ∧ s.Permitted context.inLoop context.inFunction

/-- The productions of statements at one number of levels. -/
structure StatementsSound (depth : Nat) : Prop where
  declaration : ∀ n context, context.keepTests = true →
    Sound n (declaration context depth) (declarationReads context)
  function : ∀ n context, context.keepTests = true →
    Sound n (function context depth) (behindDeclaring .kwFun context)
  testStatement : ∀ n context, context.keepTests = true →
    Sound n (testStatement context depth) (behindDeclaring .kwTest context)
  statement : ∀ n context, context.keepTests = true →
    Sound n (statement context depth) (statementReads context)
  block : ∀ n context, context.keepTests = true →
    Sound n (block context depth) (blockReads context)
  branch : ∀ n context, context.keepTests = true →
    Sound n (branch context depth) (behind .kwIf context)
  loopBody : ∀ n context, context.keepTests = true →
    Sound n (loopBody context depth) (statementReads { context with inLoop := true })
  whileLoop : ∀ n context, context.keepTests = true →
    Sound n (whileLoop context depth) (behind .kwWhile context)
  forStatement : ∀ n context, context.keepTests = true →
    Sound n (forStatement context depth) (behind .kwFor context)

theorem statementsUntilBrace_sound {one : ParseM (Option Stmt)} {context : Context}
    (h : ∀ n, Sound n one (declarationReads context)) (rounds : Nat) :
    Sound (rounds + 1) (statementsUntilBrace one rounds) (fun used _ body =>
      Declarations used body ∧ Stmt.AllPermitted context.inLoop context.inFunction body) := by
  induction rounds with
  | zero =>
    refine (Sound.pure []).mono ?_
    rintro used after body ⟨rfl, rfl⟩
    exact ⟨.done, trivial⟩
  | succ rounds ih =>
    have nothing : Sound (rounds + 2) (pure [] : ParseM (List Stmt)) (fun used _ body =>
        Declarations used body ∧ Stmt.AllPermitted context.inLoop context.inFunction body) := by
      refine (Sound.pure []).mono ?_
      rintro used after body ⟨rfl, rfl⟩
      exact ⟨.done, trivial⟩
    rw [statementsUntilBrace]
    refine Sound.mono (Sound.bind Sound.current? (N := fun _ used _ body =>
      Declarations used body ∧ Stmt.AllPermitted context.inLoop context.inFunction body) ?body) ?_
    case body =>
      intro next
      cases next with
      | none => exact nothing
      | some t =>
        dsimp only
        split
        · exact nothing
        · refine Sound.mono (Sound.bindTaking (h _) ?taken
            fun first => Sound.bind ih fun rest => Sound.pure (first.toList ++ rest)) ?_
          case taken =>
            -- no declaration is empty, so there are always rounds left
            rintro used after r ⟨s, -, hG, -⟩
            exact hG.first.ne_nil
          rintro used after body ⟨first, u, v, rfl, ⟨s, rfl, hG, hP⟩, rest, w, x, rfl, ⟨hrest, hall⟩,
            rfl, rfl⟩
          rw [List.append_nil]
          exact ⟨.more hG hrest, hP, hall⟩
    rintro used after body ⟨next, u, v, rfl, ⟨rfl, -⟩, hbody⟩
    exact hbody

section Level

variable {depth : Nat} (ih : StatementsSound depth) (n : Nat) (context : Context)
  (keeps : context.keepTests = true)
include ih keeps

theorem block_sound : Sound n (block context (depth + 1)) (blockReads context) := by
  rw [block]
  refine Sound.mono (Sound.total fun m => Sound.bind
    (statementsUntilBrace_sound (fun k => ih.declaration k context keeps) m) fun body =>
      Sound.bind (Sound.expect .rightBrace _) fun _ => Sound.pure body) ?_
  rintro used after body ⟨body, u, v, rfl, ⟨hG, hP⟩, close, w, x, rfl, ⟨rfl, hk⟩, rfl, rfl⟩
  exact ⟨u, close, by rw [List.append_nil], hG, hk, hP⟩

theorem function_sound :
    Sound n (function context (depth + 1)) (behindDeclaring .kwFun context) := by
  rw [function]
  refine Sound.mono (Sound.bind (signature_sound n depth) fun signature =>
    Sound.bind (ih.block _ { context with inLoop := false, inFunction := true } keeps) fun body =>
      Sound.pure (Stmt.function signature body)) ?_
  rintro used after s ⟨signature, _, _, rfl, ⟨ts, opening, rfl, hsig, hopen, hsigP⟩, body, _, _, rfl,
    ⟨us, close, rfl, hbody, hclose, hbodyP⟩, rfl, rfl⟩ keyword hk
  rw [List.append_nil, List.append_assoc]
  exact ⟨.function hk hsig hopen hbody hclose, by rw [Stmt.Permitted]; exact ⟨hsigP, hbodyP⟩⟩

theorem testStatement_sound :
    Sound n (testStatement context (depth + 1)) (behindDeclaring .kwTest context) := by
  rw [testStatement]
  refine Sound.mono (Sound.bind (Sound.expect .text _) fun name =>
    Sound.bind (ih.statement _ { context with inLoop := false, inFunction := false } keeps)
      fun body => Sound.pure (Stmt.test name.content name.place body)) ?_
  rintro used after s ⟨name, _, _, rfl, ⟨rfl, hname⟩, body, _, _, rfl, ⟨takesElse, hbody, hP, -⟩,
    rfl, rfl⟩ keyword hk
  rw [List.append_nil]
  exact ⟨.test hk hname hbody, by rw [Stmt.Permitted]; exact hP⟩

theorem loopBody_sound :
    Sound n (loopBody context (depth + 1)) (statementReads { context with inLoop := true }) := by
  rw [loopBody]
  exact ih.statement n { context with inLoop := true } keeps

theorem whileLoop_sound : Sound n (whileLoop context (depth + 1)) (behind .kwWhile context) := by
  rw [whileLoop]
  refine Sound.mono (Sound.bind (Sound.expect .leftParen _) fun _ =>
    Sound.bind ((expressionsSound depth).expression _) fun condition =>
    Sound.bind (Sound.expect .rightParen _) fun _ =>
    Sound.bind (ih.loopBody _ context keeps) fun body => Sound.pure (Stmt.loop condition body)) ?_
  rintro used after s ⟨opening, _, _, rfl, ⟨rfl, hopen⟩, condition, cs, _, rfl, ⟨hG, hP⟩, close, _, _,
    rfl, ⟨rfl, hclose⟩, body, ts, _, rfl, ⟨takesElse, hbody, hbodyP, helse⟩, rfl, rfl⟩ keyword hk
  rw [List.append_nil]
  refine ⟨takesElse, .loop hk hopen hG hclose hbody, ?_, helse⟩
  rw [Stmt.Permitted]
  exact ⟨hP, hbodyP⟩

theorem forStatement_sound : Sound n (forStatement context (depth + 1)) (behind .kwFor context) := by
  rw [forStatement]
  refine Sound.mono (Sound.bind (Sound.expect .leftParen _) fun _ =>
    Sound.bind (loopStart_sound _ depth) fun start =>
    Sound.bind (Sound.itemUnless ((expressionsSound depth).expression _)) fun condition =>
    Sound.bind (Sound.expect .semicolon _) fun _ =>
    Sound.bind (Sound.itemUnless ((expressionsSound depth).expression _)) fun step =>
    Sound.bind (Sound.expect .rightParen _) fun _ =>
    Sound.bind (ih.loopBody _ context keeps) fun body =>
      Sound.pure (forLoop start condition step body)) ?_
  rintro used after s ⟨opening, _, _, rfl, ⟨rfl, hopen⟩, start, is, _, rfl, ⟨hstart, hstartP⟩,
    condition, cs, _, rfl, hcondition, semicolon, _, _, rfl, ⟨rfl, hsemi⟩, step, us, _, rfl, hstep,
    close, _, _, rfl, ⟨rfl, hclose⟩, body, ts, _, rfl, ⟨takesElse, hbody, hbodyP, helse⟩, rfl, rfl⟩
    keyword hk
  obtain ⟨hcondG, hcondP⟩ := optional_of_reads hcondition
  obtain ⟨hstepG, hstepP⟩ := optional_of_reads hstep
  rw [List.append_nil, forLoop_eq_countingLoop]
  refine ⟨takesElse, .counting hk hopen hstart hcondG hsemi hstepG hclose hbody, ?_, helse⟩
  exact (countingLoop_permitted_iff _ _ _ _ _ _).mpr ⟨hstartP _ _, hcondP, hstepP, hbodyP⟩

theorem branch_sound : Sound n (branch context (depth + 1)) (behind .kwIf context) := by
  rw [branch]
  refine Sound.mono (Sound.bind (Sound.expect .leftParen _) fun _ =>
    Sound.bind ((expressionsSound depth).expression _) fun condition =>
    Sound.bind (Sound.expect .rightParen _) fun _ =>
    Sound.bind (ih.statement _ context keeps) fun whenTrue =>
    Sound.bind (Sound.following (ih.statement _ context keeps)) fun whenFalse =>
      Sound.pure (Stmt.branch condition whenTrue whenFalse)) ?_
  rintro used after s ⟨opening, _, _, rfl, ⟨rfl, hopen⟩, condition, cs, _, rfl, ⟨hG, hP⟩, close, _, _,
    rfl, ⟨rfl, hclose⟩, whenTrue, ts, _, rfl, ⟨takesElse, hthen, hthenP, helse⟩, whenFalse, us, _, rfl,
    hfalse, rfl, rfl⟩ keyword hk
  rw [List.append_nil]
  rcases hfalse with ⟨other, us, u, rfl, hother, rfl, takesElse', helse', hP', hno⟩ | ⟨rfl, rfl, hno⟩
  · -- the branch before the `else` left it, so it could not take it
    have closed : takesElse = false := by
      cases takesElse with
      | false => rfl
      | true => exact absurd ⟨other, _, rfl, hother⟩ (helse rfl)
    subst closed
    refine ⟨takesElse', .branchElse hk hopen hG hclose hthen hother helse', ?_, hno⟩
    rw [Stmt.Permitted]
    exact ⟨hP, hthenP, hP'⟩
  · rw [List.append_nil]
    refine ⟨true, .branch hk hopen hG hclose hthen, ?_, fun _ => hno⟩
    rw [Stmt.Permitted]
    exact ⟨hP, hthenP, trivial⟩

theorem statement_sound : Sound n (statement context (depth + 1)) (statementReads context) := by
  rw [statement]
  refine Sound.mono (Sound.accepted (printStatement_sound _ depth context) <|
    Sound.accepted (Sound.bind (ih.block _ context keeps) fun body => Sound.pure (Stmt.block body)) <|
    Sound.accepted (ih.branch _ context keeps) <|
    Sound.accepted (ih.whileLoop _ context keeps) <|
    Sound.accepted (ih.forStatement _ context keeps) <|
    Sound.accept (leaveStatement_sound _ context) <|
    Sound.accept (yieldStatement_sound _ depth context) <|
    Sound.accept (fun t hk => contractStatement_sound _ depth context .assertion t (.assertion hk)) <|
    Sound.accept (fun t hk => contractStatement_sound _ depth context .check t (.check hk)) <|
    Sound.accepted (loadStatement_sound _ context) (expressionStatement_sound _ depth)) ?_
  -- one alternative after the other, in the order in which the production tries them
  rintro used after s (⟨t, u, rfl, hk, h⟩ | ⟨-, h⟩)
  · exact h t hk
  rcases h with ⟨t, u, rfl, hk, body, v, w, rfl, ⟨ts, close, rfl, hG, hclose, hP⟩, rfl, rfl⟩ |
    ⟨noBrace, h⟩
  · rw [List.append_nil]
    exact statementReads_of_closed (.block hk hG hclose) (by rw [Stmt.Permitted]; exact hP)
  rcases h with ⟨t, u, rfl, hk, h⟩ | ⟨-, h⟩
  · exact h t hk
  rcases h with ⟨t, u, rfl, hk, h⟩ | ⟨-, h⟩
  · exact h t hk
  rcases h with ⟨t, u, rfl, hk, h⟩ | ⟨-, h⟩
  · exact h t hk
  rcases h with ⟨t, u, rfl, -, h⟩ | ⟨-, h⟩
  · exact h
  rcases h with ⟨t, u, rfl, -, h⟩ | ⟨-, h⟩
  · exact h
  rcases h with ⟨t, u, rfl, -, h⟩ | ⟨-, h⟩
  · exact h
  rcases h with ⟨t, u, rfl, -, h⟩ | ⟨-, h⟩
  · exact h
  rcases h with ⟨t, u, rfl, hk, h⟩ | ⟨-, hG, hP⟩
  · exact h t hk
  · -- an expression statement comes last; had it started with a brace it would be a block
    refine statementReads_of_closed (.expression hG ?_) (hP _ _)
    rintro ⟨t, rest, rfl, hk⟩
    exact noBrace ⟨t, rest ++ after, rfl, hk⟩

theorem declaration_sound :
    Sound n (declaration context (depth + 1)) (declarationReads context) := by
  rw [declaration]
  refine Sound.recovering (Sound.mono (Sound.accepted
    (Sound.bind (varDeclaration_sound _ depth) fun s => Sound.pure (some s)) <|
    Sound.accepted (Sound.bind (ih.function _ context keeps) fun s => Sound.pure (some s)) <|
    Sound.accepted (Sound.bind (ih.testStatement _ context keeps) fun s =>
      Sound.pure (if context.keepTests = true then some s else none))
    (Sound.bind (ih.statement _ context keeps) fun s => Sound.pure (some s))) ?_)
  rintro used after r (⟨t, u, rfl, hk, s, v, w, rfl, ⟨hG, hP⟩, rfl, rfl⟩ | ⟨-, h⟩)
  · rw [List.append_nil]
    exact ⟨s, rfl, .var hk hG, hP _ _⟩
  rcases h with ⟨t, u, rfl, hk, s, v, w, rfl, h, rfl, rfl⟩ | ⟨-, h⟩
  · rw [List.append_nil]
    exact ⟨s, rfl, h t hk⟩
  rcases h with ⟨t, u, rfl, hk, s, v, w, rfl, h, rfl, rfl⟩ |
    ⟨-, s, v, w, rfl, ⟨takesElse, hG, hP, -⟩, rfl, rfl⟩
  · rw [List.append_nil]
    exact ⟨s, if_pos keeps, h t hk⟩
  · rw [List.append_nil]
    exact ⟨s, rfl, .statement hG, hP⟩

end Level

theorem statementsSound (depth : Nat) : StatementsSound depth := by
  induction depth with
  | zero =>
    exact ⟨fun _ _ _ => .outOfLevels, fun _ _ _ => .outOfLevels, fun _ _ _ => .outOfLevels,
      fun _ _ _ => .outOfLevels, fun _ _ _ => .outOfLevels, fun _ _ _ => .outOfLevels,
      fun _ _ _ => .outOfLevels, fun _ _ _ => .outOfLevels, fun _ _ _ => .outOfLevels⟩
  | succ depth ih =>
    exact
      { declaration := declaration_sound ih
        function := function_sound ih
        testStatement := testStatement_sound ih
        statement := statement_sound ih
        block := block_sound ih
        branch := branch_sound ih
        loopBody := loopBody_sound ih
        whileLoop := whileLoop_sound ih
        forStatement := forStatement_sound ih }

/-! ## Programs -/

theorem attempting_sound {n : Nat} {one : ParseM (Option Stmt)} {L : Lang (Option Stmt)}
    (h : Sound n one L) :
    Sound n (attempting one) (fun used after r => ∃ a, r = some a ∧ L used after a) := by
  constructor
  · intro s
    rcases attempting_run one s with ⟨r, s', hone, run⟩ | ⟨stop, s₁, s₂, d, hone, run, hrest, hreports, -⟩
    · rw [run]
      exact h.steady.of_ok hone
    · rw [run]
      refine (h.steady.of_error hone).trans (.ofRest hrest ?_)
      rw [hreports]
      exact Nat.le_succ _
  · intro s r s₁ hn hp hq
    rcases attempting_run one s with ⟨r, s', hone, run⟩ | ⟨stop, s', s'', d, hone, run, -, hreports, -⟩
    · rw [run] at hp
      cases hp
      obtain ⟨used, split, hL⟩ := h.reads s _ _ hn hone hq
      exact ⟨used, split, _, rfl, hL⟩
    · -- giving up adds a report, so it is not quiet
      rw [run] at hp
      cases hp
      have kept := (h.steady.of_error hone).reports
      rw [hreports, List.length_cons] at hq
      omega

/-- What a program reads: everything. -/
def programReads : Lang Program := fun used after p =>
  after = [] ∧ Derives used p ∧ p.Permitted

theorem declarations_sound {one : ParseM (Option Stmt)}
    (h : ∀ n, Sound n one (declarationReads (Context.top true))) (rounds : Nat) :
    Sound (rounds + 1) (declarations one rounds) programReads := by
  induction rounds with
  | zero =>
    refine ⟨(Sound.pure (n := 0) []).steady, fun s p s' hn hp _ => ?_⟩
    cases hp
    -- rounds run out only where no token is left
    have nothing : s.rest = [] := List.length_eq_zero_iff.mp (by omega)
    exact ⟨[], rfl, nothing, .done, trivial⟩
  | succ rounds ih =>
    rw [declarations]
    refine Sound.mono (Sound.bind Sound.current? (N := fun next used after p =>
      (next = none → used = [] ∧ p = []) ∧ (∀ t, next = some t → programReads used after p)) ?body) ?_
    case body =>
      intro next
      cases next with
      | none =>
        refine (Sound.pure []).mono fun _ _ _ h => ⟨fun _ => h, ?_⟩
        intro t ht
        cases ht
      | some t =>
        refine Sound.mono (Sound.bindTaking (attempting_sound (h _)) ?taken (N := fun first used after p =>
          ∀ s, first = some (some s) → ∃ rest, p = s :: rest ∧ programReads used after rest) ?goOn) ?_
        case taken =>
          rintro used after r ⟨_, -, s, -, hG, -⟩
          exact hG.first.ne_nil
        case goOn =>
          intro first
          cases first with
          | none =>
            refine (Sound.pure []).mono fun _ _ _ _ s hs => ?_
            cases hs
          | some r =>
            refine Sound.mono (Sound.bind ih fun rest => Sound.pure (r.toList ++ rest)) ?_
            rintro used after p ⟨rest, u, v, rfl, hrest, rfl, rfl⟩ s hs
            cases hs
            rw [List.append_nil]
            exact ⟨rest, rfl, hrest⟩
        rintro used after p ⟨first, u, v, rfl, ⟨_, rfl, s, rfl, hG, hP⟩, hrest⟩
        obtain ⟨rest, rfl, rfl, hrestG, hrestP⟩ := hrest s rfl
        refine ⟨fun hn => ?_, fun _ _ => ⟨rfl, .more hG hrestG, hP, hrestP⟩⟩
        cases hn
    rintro used after p ⟨next, u, v, rfl, ⟨rfl, hnext⟩, hnone, hsome⟩
    cases hc : v ++ after with
    | nil =>
      rw [hc] at hnext
      obtain ⟨rfl, rfl⟩ := hnone hnext
      exact ⟨by simpa using hc, .done, trivial⟩
    | cons t rest =>
      rw [hc] at hnext
      exact hsome t hnext

end Parser

/-! ## Programs -/

/-- A whole program is what its declarations read, with the reports in order. -/
theorem Program.parse_run (keepTests : Bool) (input : TokenList) {p : Program} {s : Parser.State}
    (h : Parser.declarations (Parser.declaration (Parser.Context.top keepTests) Parser.nesting)
      input.tokens.length (Parser.State.start input) = .ok p s) :
    Program.parse keepTests input = (p, s.reports.reverse) := by
  unfold Program.parse
  simp only [h]

/-- What is parsed without a report is derivable, with the tree that was built. -/
theorem Program.derives_of_parse (input : TokenList)
    (h : (Program.parse true input).2 = []) :
    Grammar.Derives input.tokens (Program.parse true input).1 ∧ (Program.parse true input).1.Permitted := by
  obtain ⟨p, s, run⟩ := Parser.declarations_total
    (Parser.declaration (Parser.Context.top true) Parser.nesting) input.tokens.length (Parser.State.start input)
  rw [Program.parse_run true input run] at h ⊢
  have quiet : s.reports = [] := List.reverse_eq_nil_iff.mp h
  have sound := Parser.declarations_sound
    (fun n => (Parser.statementsSound Parser.nesting).declaration n (Parser.Context.top true) rfl)
    input.tokens.length
  have within : (Parser.State.start input).rest.length < input.tokens.length + 1 := Nat.lt_succ_self _
  obtain ⟨used, split, ending, derives, permitted⟩ := sound.reads (Parser.State.start input) p s within run
    (by rw [quiet]; rfl)
  rw [ending, List.append_nil] at split
  have whole : input.tokens = used := split
  rw [whole]
  exact ⟨derives, permitted⟩

end ContractScript
