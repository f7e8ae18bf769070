/-
Putting lexemes together again, with single blanks between them.

Nothing but a text holds blanks, and a text ends at its closing quote. So no lexeme goes on over a
blank that is put behind it, whatever comes behind the blank, and lexemes that stand side by side are
cut apart where the blanks are. What is cut there is a segmentation, and a source has no other one.
-/
import ContractScript.Proofs.Program.Segmentation

set_option autoImplicit false

namespace ContractScript

namespace Token

variable {kind kind' : Kind} {cs cs' : List Char}

/-- Nothing but a text holds blanks. -/
theorem Spells.text_of_blank (h : Spells kind cs) (blank : ' ' ∈ cs) : kind = .text := by
  cases h with
  | text => rfl
  | sign listed =>
    have free : ∀ entry ∈ signs, ' ' ∉ entry.1 := by decide
    exact absurd blank (free _ listed)
  | number numeral => exact absurd (numeral.mem_alphabet blank) (by decide)
  | keyword listed =>
    have free : ∀ entry ∈ keywords, ' ' ∉ entry.1.toList := by decide +kernel
    exact absurd blank (free _ listed)
  | identifier start parts =>
    rcases List.mem_cons.mp blank with rfl | blank
    · exact absurd start (by decide)
    · exact absurd (parts _ blank) (by decide)

/-- A text that starts with a lexeme is that lexeme, since it ends at its first quote. -/
theorem Spells.eq_of_prefix (h : Spells kind cs) (h' : Spells .text cs') (begins : cs <+: cs') :
    cs = cs' := by
  obtain ⟨c, rest, rfl, shape⟩ := h.exists_shape
  obtain ⟨body', free', rfl⟩ := h'.exists_body
  obtain ⟨rfl, behind⟩ := List.cons_prefix_cons.mp begins
  obtain ⟨-, body, -, rfl⟩ := shape.of_quote
  rcases List.prefix_concat_iff.mp behind with same | inside
  · rw [same]
  · -- the quote that ends the lexeme would stand inside of the text
    exact absurd (inside.subset (List.mem_append_right _ List.mem_cons_self)) free'

/-- A token as a piece of a source. -/
def piece (t : Token) : Segment := ⟨.token t.kind, t.lexeme.text.toList⟩

end Token

namespace Segment

/-- A lexeme fits where the source ends or a blank comes next. -/
theorem fits_before_blank {kind : Token.Kind} {cs after : List Char} (spelled : Token.Spells kind cs)
    (behind : after = [] ∨ after.head? = some ' ') : Fits ⟨.token kind, cs⟩ after := by
  refine .token spelled ?_ ?_
  · intro comment
    obtain ⟨c, rest, rfl, shape⟩ := spelled.exists_shape
    obtain ⟨rfl, more⟩ := List.cons_prefix_cons.mp comment
    -- a lexeme that starts with a slash is the slash
    have listed : (['/'], Token.Kind.slash) ∈ Token.signs := by decide
    rcases shape.of_listed listed with rfl | ⟨d, alone, -, pair⟩
    · obtain ⟨more, rfl⟩ := more
      simp at behind
    · cases pair
  · intro kind' cs' spelled' begins
    by_contra longer
    have part : cs <+: cs' :=
      List.prefix_of_prefix_length_le (List.prefix_append _ _) begins (by omega)
    obtain ⟨more, rfl⟩ := part
    have more_prefix : more <+: after := (List.prefix_append_right_inj cs).mp begins
    cases more with
    | nil => simp at longer
    | cons c more =>
      -- what is longer holds the blank, so it is a text, and a text does not go on
      obtain ⟨rest, rfl⟩ := more_prefix
      obtain rfl : c = ' ' := by simpa using behind
      have text := spelled'.text_of_blank (by simp)
      rw [text] at spelled'
      have same := spelled.eq_of_prefix spelled' (List.prefix_append _ _)
      simp at same

/-- Tokens with single blanks between them. -/
def spaced (ts : List Token) : List Segment :=
  (ts.map Token.piece).intersperse ⟨.blank, [' ']⟩

theorem spaced_cons_cons (t u : Token) (ts : List Token) :
    spaced (t :: u :: ts) = t.piece :: ⟨.blank, [' ']⟩ :: spaced (u :: ts) := rfl

theorem chars_spaced (ts : List Token) :
    (spaced ts).flatMap chars = (" ".intercalate (ts.map (·.lexeme.text))).toList := by
  rw [String.toList_intercalate]
  induction ts with
  | nil => rfl
  | cons t ts ih =>
    cases ts with
    | nil => simp [spaced, Token.piece]
    | cons u ts =>
      rw [spaced_cons_cons, List.flatMap_cons, List.flatMap_cons, ih]
      simp [Token.piece, List.intercalate_cons_cons]

/-- Lexemes with blanks between them are cut apart at the blanks. -/
theorem segmentation_spaced {ts : List Token}
    (spelled : ∀ t ∈ ts, Token.Spells t.kind t.lexeme.text.toList) :
    Segmentation ((spaced ts).flatMap chars) (spaced ts) := by
  induction ts with
  | nil => exact .nil
  | cons t ts ih =>
    have first := spelled t List.mem_cons_self
    have rest := ih fun u member => spelled u (List.mem_cons_of_mem _ member)
    cases ts with
    | nil => exact Segmentation.cons_iff.mpr ⟨[], fits_before_blank first (.inl rfl), .nil, rfl⟩
    | cons u ts =>
      rw [spaced_cons_cons]
      refine Segmentation.cons_iff.mpr ⟨_, fits_before_blank first (.inr rfl), ?_, rfl⟩
      exact Segmentation.cons_iff.mpr ⟨_, .blank (by decide), rest, rfl⟩

/-- Nothing is found in the blanks, so what is found in the tokens is all. -/
theorem filterMap_spaced {α : Type} {kept? : Segment → Option α} (blank : kept? ⟨.blank, [' ']⟩ = none)
    (ts : List Token) : (spaced ts).filterMap kept? = ts.filterMap fun t => kept? t.piece := by
  induction ts with
  | nil => rfl
  | cons t ts ih =>
    cases ts with
    | nil => simp [spaced, List.filterMap_cons]
    | cons u ts =>
      rw [spaced_cons_cons, List.filterMap_cons, List.filterMap_cons_none blank, ih]
      conv_rhs => rw [List.filterMap_cons]

end Segment

namespace TokenList

open Segment

/-- The lexemes of a source, put together with single blanks between them, are scanned without a
complaint, and into tokens of the same kinds, with the same texts and the same values. -/
theorem scan_respaced (file again : Option String) (source : String) :
    let tokens := (scan file source).1.tokens
    let respaced := scan again (" ".intercalate (tokens.map (·.lexeme.text)))
    (∀ ss, Segmentation source.toList ss →
      tokens.map (fun t => (t.kind, t.lexeme.text)) = ss.filterMap spelling?) ∧
    respaced.2 = [] ∧
    respaced.1.tokens.map (fun t => (t.kind, t.lexeme.text, t.content, t.number))
      = tokens.map (fun t => (t.kind, t.lexeme.text, t.content, t.number)) := by
  intro tokens respaced
  -- lexemes with blanks between are a segmentation, and there is only one
  have pieces : split (" ".intercalate (tokens.map (·.lexeme.text))).toList = spaced tokens := by
    rw [← chars_spaced]
    exact (Segmentation.iff_split.mp (segmentation_spaced fun t => spells_of_mem)).symm
  have quiet : respaced.2.map (·.complaint) = [] := by
    rw [← List.filterMap_none tokens]
    refine (map_complaint_scan _ _).trans ?_
    rw [pieces, filterMap_spaced rfl]
    rfl
  have spellings : respaced.1.tokens.map (fun t => (t.kind, t.lexeme.text))
      = tokens.map (fun t => (t.kind, t.lexeme.text)) := by
    refine (map_spelling_scan _ _).trans ?_
    rw [pieces, filterMap_spaced rfl]
    simp [Token.piece, spelling?]
  refine ⟨fun ss whole => ?_, List.map_eq_nil_iff.mp quiet, ?_⟩
  · rw [Segmentation.iff_split.mp whole]
    exact map_spelling_scan file source
  · -- the values are read off the texts
    have values := congrArg (List.map fun p => (p.1, p.2, String.ofList (Token.unquote p.2.toList),
      Token.numberValue p.2.toList)) spellings
    rw [List.map_map, List.map_map] at values
    exact values

end TokenList

end ContractScript
