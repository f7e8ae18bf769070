/-
The parser accepts exactly its grammar.

Soundness and completeness together: a source is parsed without a report if and
only if the grammar derives its tokens and the tree keeps to the limits, and the
tree of every derivation is the one that the parser builds. In particular the
grammar assigns at most one tree to a source. The only way out is a source that
nests too deeply, which is reported as such; a source of few tokens never does.
-/
import ContractScript.Proofs.Program.Completeness
import ContractScript.Proofs.Program.Progress

set_option autoImplicit false

namespace ContractScript

open Grammar

/-- A derivable source is parsed into the tree of its derivation, and without a report if that tree
keeps to the limits. If declarations can run out of levels, it must not be reported that they did. -/
theorem Program.parse_of_delivers (input : TokenList) {deep : Prop} {program : Program}
    (delivers : ∀ ts s after, Declaration ts s → ¬StartsWith .kwElse after →
      (ts ++ after).length ≤ input.tokens.length →
      Parser.Delivers deep (s.Permitted false false)
        (Parser.declaration (Parser.Context.top true) Parser.nesting) ts after (some s))
    (shallow : deep → ∀ d ∈ (Program.parse true input).2, d.complaint ≠ .nestsTooDeeply)
    (h : Derives input.tokens program) :
    (Program.parse true input).1 = program ∧
      (program.Permitted → (Program.parse true input).2 = []) := by
  obtain ⟨p, s, run, found⟩ := Parser.declarations_complete delivers h input.tokens.length
    (Parser.State.start input) rfl (Nat.le_refl _) (Nat.le_refl _)
  rw [Program.parse_run true input run] at shallow ⊢
  rcases found with ⟨ranOut, d, hd, deep⟩ | ⟨rfl, quiet⟩
  · exact absurd deep (shallow ranOut d (List.mem_reverse.mpr hd))
  · refine ⟨rfl, fun permitted => ?_⟩
    show s.reports.reverse = []
    rw [quiet permitted]
    rfl

/-- A source that has few tokens, or that does not nest too deeply, is parsed without a report exactly
if the grammar derives it with a tree that keeps to the limits; the tree that is returned then is the
derived one, and every derivation has that tree. -/
theorem Program.parse_exact (input : TokenList)
    (shallow : 16 * (input.tokens.length + 2) ≤ Parser.nesting ∨
      ∀ d ∈ (Program.parse true input).2, d.complaint ≠ .nestsTooDeeply) :
    ((Program.parse true input).2 = [] ↔ ∃ p, Derives input.tokens p ∧ Program.Permitted p) ∧
    ((Program.parse true input).2 = [] → Derives input.tokens (Program.parse true input).1) ∧
    ∀ p, Derives input.tokens p → (Program.parse true input).1 = p := by
  have complete := (Parser.statementsComplete Parser.nesting).declaration (Parser.Context.top true)
  have parsed : ∀ p, Derives input.tokens p → (Program.parse true input).1 = p ∧
      (p.Permitted → (Program.parse true input).2 = []) := by
    rcases shallow with few | shallow
    -- sixteen levels for every token are enough for each declaration of them
    · intro p derives
      refine Program.parse_of_delivers input (fun ts s after hG hno within => ?_) False.elim derives
      refine (complete ts s after rfl hG hno).endures fun s₁ s₂ hs => ?_
      have length : s₁.rest.length = (ts ++ after).length := congrArg List.length hs
      exact Parser.declaration_endures (by omega)
    · exact fun p derives => Program.parse_of_delivers input
        (fun ts s after hG hno _ => complete ts s after rfl hG hno) (fun _ => shallow) derives
  refine ⟨⟨fun h => ⟨_, Program.derives_of_parse input h⟩, ?_⟩,
    fun h => (Program.derives_of_parse input h).1, fun p derives => (parsed p derives).1⟩
  rintro ⟨p, derives, permitted⟩
  exact (parsed p derives).2 permitted

/-- The tokens of `while (x) break;`, all on one line. -/
def leavingLoop : TokenList :=
  let here : Place := ⟨none, 1⟩
  let token (kind : Token.Kind) (text : String) : Token := ⟨kind, ⟨text, here⟩⟩
  ⟨[token .kwWhile "while", token .leftParen "(", token .identifier "x", token .rightParen ")",
    token .kwBreak "break", token .semicolon ";"], here⟩

/-- The loop has few tokens and is parsed quietly, so the grammar derives it, with this tree only. -/
theorem Program.parse_exact_leavingLoop :
    Program.parse true leavingLoop = ([.loop (.variable ⟨"x", ⟨none, 1⟩⟩) (.leave ⟨none, 1⟩)], []) ∧
    Derives leavingLoop.tokens (Program.parse true leavingLoop).1 ∧
    (∃ p, Derives leavingLoop.tokens p ∧ Program.Permitted p) ∧
    ∀ p, Derives leavingLoop.tokens p →
      p = [.loop (.variable ⟨"x", ⟨none, 1⟩⟩) (.leave ⟨none, 1⟩)] := by
  have parsed : Program.parse true leavingLoop
      = ([.loop (.variable ⟨"x", ⟨none, 1⟩⟩) (.leave ⟨none, 1⟩)], []) := rfl
  have exact := Program.parse_exact leavingLoop (.inl (by decide))
  rw [parsed] at exact ⊢
  exact ⟨rfl, exact.2.1 rfl, exact.1.mp rfl, fun p h => (exact.2.2 p h).symm⟩

end ContractScript
