/-
What a source is cut into, said without saying how it is read.

A lexeme belongs to a class of tokens: it is one of the signs, a text between quotes, a numeral, a
keyword or an identifier. The pieces of a source are lexemes, single blanks, comments, and what cannot
be a lexeme. The rule that makes the pieces unique is that a lexeme is the longest one that starts
where it starts, and that two slashes always start a comment. It is a condition on a piece and on what
comes behind it, and it looks at every longer lexeme, not only at the next character: `1.5` goes on
behind `1` although `1.` is no numeral.

Two facts make a theory of it. What is read at a place fits what comes behind it, and two pieces that
fit at the same place are the same. So a source has exactly one segmentation, which is what it is cut
into.
-/
import ContractScript.Proofs.Program.LineEnds

set_option autoImplicit false

namespace ContractScript

/-! ## Classes of lexemes -/

namespace Token

/-- The lexemes that are made of signs. -/
def signs : List (List Char × Kind) :=
  [(['('], .leftParen), ([')'], .rightParen), (['\x7b'], .leftBrace), (['\x7d'], .rightBrace),
   (['['], .leftSquare), ([']'], .rightSquare), ([','], .comma), (['.'], .dot), (['-'], .minus),
   (['+'], .plus), ([';'], .semicolon), (['/'], .slash), (['*'], .star), (['%'], .percent),
   (['?'], .question), ([':'], .colon), ([':', ':'], .doubleColon), (['!'], .bang),
   (['!', '='], .bangEqual), (['='], .equal), (['=', '='], .equalEqual), (['>'], .greater),
   (['>', '='], .greaterEqual), (['<'], .less), (['<', '='], .lessEqual)]

/-- A lexeme belongs to the class of tokens of a kind. What is spelled like a keyword is no
identifier. -/
inductive Spells : Kind → List Char → Prop
  | sign {kind : Kind} {cs : List Char} (listed : (cs, kind) ∈ signs) : Spells kind cs
  | text {body : List Char} (inside : '"' ∉ body) : Spells .text ('"' :: (body ++ ['"']))
  | number {cs : List Char} (numeral : Number.Unsigned cs) : Spells .number cs
  | keyword {kind : Kind} {word : String} (listed : (word, kind) ∈ keywords) : Spells kind word.toList
  | identifier {c : Char} {cs : List Char} (start : Segment.isWordStart c = true)
      (parts : ∀ d ∈ cs, Segment.isWordPart d = true)
      (free : ∀ entry ∈ keywords, entry.1.toList ≠ c :: cs) : Spells .identifier (c :: cs)

/-- A lexeme starts with this character. -/
def Starts (c : Char) : Prop := ∃ kind cs, Spells kind (c :: cs)

end Token

/-! ## Pieces -/

namespace Segment

/-- A piece is what it has to be when something comes behind it. -/
inductive Fits : Segment → List Char → Prop
  | token {kind : Token.Kind} {cs after : List Char} (spelled : Token.Spells kind cs)
      (noComment : ¬['/', '/'] <+: cs ++ after)
      (longest : ∀ kind' cs', Token.Spells kind' cs' → cs' <+: cs ++ after → cs'.length ≤ cs.length) :
      Fits ⟨.token kind, cs⟩ after
  | blank {c : Char} {after : List Char} (space : c ∈ [' ', '\r', '\t', '\n']) : Fits ⟨.blank, [c]⟩ after
  | comment {cs after : List Char} (inside : '\n' ∉ cs) (ends : after = [] ∨ after.head? = some '\n') :
      Fits ⟨.comment, '/' :: '/' :: cs⟩ after
  | unexpected {c : Char} {after : List Char} (noSpace : c ∉ [' ', '\r', '\t', '\n'])
      (startless : ¬Token.Starts c) : Fits ⟨.unexpected, [c]⟩ after
  | unterminated {cs : List Char} (inside : '"' ∉ cs) : Fits ⟨.unterminated, '"' :: cs⟩ []

end Segment

/-- Pieces that are put together without gaps and of which each fits what comes behind it. -/
structure Segmentation (cs : List Char) (ss : List Segment) : Prop where
  whole : ss.flatMap Segment.chars = cs
  fits : ∀ before s after, ss = before ++ s :: after → s.Fits (after.flatMap Segment.chars)

/-! ## What a lexeme starts with

The first character of a lexeme tells what it is made of. -/

namespace Token

/-- A sign starts with this character. -/
def isSign (c : Char) : Bool := signs.any fun entry => entry.1.head? == some c

theorem isSign_of_listed {c : Char} {cs : List Char} {kind : Kind} (listed : (c :: cs, kind) ∈ signs) :
    isSign c = true :=
  List.any_eq_true.mpr ⟨_, listed, beq_iff_eq.mpr rfl⟩

/-- There are few signs, so what holds of their first characters can be found out. -/
theorem sign_spec {P : Char → Bool} (hP : (signs.filterMap fun entry => entry.1.head?).all P = true)
    {c : Char} (h : isSign c = true) : P c = true := by
  obtain ⟨entry, member, same⟩ := List.any_eq_true.mp h
  exact List.all_eq_true.mp hP c (List.mem_filterMap.mpr ⟨entry, member, beq_iff_eq.mp same⟩)

/-- A sign is one character, or two that form a pair. -/
theorem sign_shape {cs : List Char} {kind : Kind} (listed : (cs, kind) ∈ signs) :
    (∃ c, cs = [c]) ∨ ∃ c d alone, cs = [c, d] ∧ pairKind? c = some (d, kind, alone) := by
  have shapes : ∀ entry ∈ signs, entry.1 ≠ [] ∧ (entry.1.tail = [] ∨
      (entry.1.head?.bind pairKind?).map (fun p => ([p.1], p.2.1)) = some (entry.1.tail, entry.2)) := by
    decide
  obtain ⟨nonempty, shape⟩ := shapes _ listed
  obtain ⟨c, rest, rfl⟩ := List.exists_cons_of_ne_nil nonempty
  rcases shape with alone | pair
  · exact .inl ⟨c, congrArg (c :: ·) alone⟩
  · obtain ⟨⟨d, kind', alone⟩, found, same⟩ := Option.map_eq_some_iff.mp pair
    cases same
    exact .inr ⟨c, d, alone, rfl, found⟩

/-- No two signs are spelled alike. -/
theorem sign_unique {cs : List Char} {kind kind' : Kind} (h : (cs, kind) ∈ signs)
    (h' : (cs, kind') ∈ signs) : kind = kind' := by
  have distinct : ∀ entry ∈ signs, ∀ entry' ∈ signs, entry.1 = entry'.1 → entry.2 = entry'.2 := by
    decide
  exact distinct _ h _ h' rfl

/-- What a lexeme is made of, by its first character. -/
inductive Shape : Kind → Char → List Char → Prop
  | sign {kind : Kind} {c : Char} {cs : List Char} (start : isSign c = true)
      (listed : (c :: cs, kind) ∈ signs) : Shape kind c cs
  | text {body : List Char} (inside : '"' ∉ body) : Shape .text '"' (body ++ ['"'])
  | number {c : Char} {cs : List Char} (start : Segment.isDigit c = true)
      (numeral : Number.Unsigned (c :: cs)) : Shape .number c cs
  | word {c : Char} {cs : List Char} (start : Segment.isWordStart c = true)
      (parts : ∀ d ∈ cs, Segment.isWordPart d = true) : Shape (wordKind (c :: cs)) c cs

/-- A word that is listed is a keyword, another one is an identifier. -/
theorem Spells.word {c : Char} {cs : List Char} (start : Segment.isWordStart c = true)
    (parts : ∀ d ∈ cs, Segment.isWordPart d = true) : Spells (wordKind (c :: cs)) (c :: cs) := by
  unfold wordKind
  cases found : keywords.find? fun entry => entry.1.toList == c :: cs with
  | some entry =>
    have hit := List.find?_some found
    rw [← show entry.1.toList = c :: cs from beq_iff_eq.mp hit]
    exact .keyword (List.mem_of_find?_eq_some found)
  | none =>
    refine .identifier start parts fun entry member same => ?_
    exact List.find?_eq_none.mp found entry member (beq_iff_eq.mpr same)

/-- All keywords are words, and none is listed twice. -/
theorem keyword_shape {word : String} {kind : Kind} (listed : (word, kind) ∈ keywords) :
    ∃ c cs, word.toList = c :: cs ∧ Shape kind c cs := by
  have words : ∀ entry ∈ keywords, entry.1.toList ≠ [] ∧
      entry.1.toList.head?.all Segment.isWordStart = true ∧ entry.1.toList.tail.all Segment.isWordPart = true ∧
      wordKind entry.1.toList = entry.2 := by decide +kernel
  obtain ⟨nonempty, start, parts, same⟩ := words _ listed
  obtain ⟨c, cs, spelled⟩ := List.exists_cons_of_ne_nil nonempty
  simp only [spelled, List.head?_cons, Option.all_some, List.tail_cons, List.all_eq_true] at start parts same
  refine ⟨c, cs, spelled, ?_⟩
  rw [← same]
  exact .word start parts

theorem Spells.exists_shape {kind : Kind} {cs : List Char} (h : Spells kind cs) :
    ∃ c rest, cs = c :: rest ∧ Shape kind c rest := by
  cases h with
  | sign listed =>
    rcases sign_shape listed with ⟨c, rfl⟩ | ⟨c, d, alone, rfl, -⟩
    · exact ⟨c, [], rfl, .sign (isSign_of_listed listed) listed⟩
    · exact ⟨c, [d], rfl, .sign (isSign_of_listed listed) listed⟩
  | text inside => exact ⟨_, _, rfl, .text inside⟩
  | number numeral =>
    obtain ⟨c, rest, rfl, start⟩ := numeral.exists_cons
    exact ⟨c, rest, rfl, .number start numeral⟩
  | keyword listed => exact keyword_shape listed
  | @identifier c cs start parts free =>
    have missing : keywords.find? (fun entry => entry.1.toList == c :: cs) = none :=
      List.find?_eq_none.mpr fun entry member same => free entry member (beq_iff_eq.mp same)
    have kind : wordKind (c :: cs) = .identifier := by
      unfold wordKind
      rw [missing]
    refine ⟨c, cs, rfl, ?_⟩
    rw [← kind]
    exact .word start parts

theorem Shape.spells {kind : Kind} {c : Char} {cs : List Char} (h : Shape kind c cs) :
    Spells kind (c :: cs) := by
  cases h with
  | sign _ listed => exact .sign listed
  | text inside => exact .text inside
  | number _ numeral => exact .number numeral
  | word start parts => exact .word start parts

theorem spells_iff_shape {kind : Kind} {c : Char} {cs : List Char} :
    Spells kind (c :: cs) ↔ Shape kind c cs := by
  constructor
  · intro h
    obtain ⟨c', cs', same, shape⟩ := h.exists_shape
    cases same
    exact shape
  · exact Shape.spells

section Shapes

variable {kind kind' : Kind} {c : Char} {cs : List Char}

theorem digit_not_word (h : Segment.isDigit c = true) : Segment.isWordStart c = false := by
  have digits := Number.digit_spec (P := fun c => !Segment.isWordStart c) (by decide) h
  simpa using digits

theorem sign_not_digit (h : isSign c = true) : Segment.isDigit c = false := by
  simpa using sign_spec (P := fun c => !Segment.isDigit c) (by decide) h

theorem sign_not_word (h : isSign c = true) : Segment.isWordStart c = false := by
  simpa using sign_spec (P := fun c => !Segment.isWordStart c) (by decide) h

/-- What starts like a sign is one. -/
theorem Shape.of_sign (h : Shape kind c cs) (start : isSign c = true) : (c :: cs, kind) ∈ signs := by
  cases h with
  | sign _ listed => exact listed
  | text => exact absurd start (by decide)
  | number digit => simp [sign_not_digit start] at digit
  | word letter => simp [sign_not_word start] at letter

/-- What starts with a quote ends with the next one. -/
theorem Shape.of_quote (h : Shape kind '"' cs) : kind = .text ∧ ∃ body, '"' ∉ body ∧ cs = body ++ ['"'] := by
  cases h with
  | sign start => exact absurd start (by decide)
  | text inside => exact ⟨rfl, _, inside, rfl⟩
  | number digit => exact absurd digit (by decide)
  | word letter => exact absurd letter (by decide)

/-- What starts with a digit is a numeral. -/
theorem Shape.of_digit (h : Shape kind c cs) (start : Segment.isDigit c = true) :
    kind = .number ∧ Number.Unsigned (c :: cs) := by
  cases h with
  | sign sign => simp [sign_not_digit sign] at start
  | text => exact absurd start (by decide)
  | number _ numeral => exact ⟨rfl, numeral⟩
  | word letter => simp [digit_not_word start] at letter

/-- What starts like a word is one. -/
theorem Shape.of_word (h : Shape kind c cs) (start : Segment.isWordStart c = true) :
    kind = wordKind (c :: cs) ∧ ∀ d ∈ cs, Segment.isWordPart d = true := by
  cases h with
  | sign sign => simp [sign_not_word sign] at start
  | text => exact absurd start (by decide)
  | number digit => simp [digit_not_word digit] at start
  | word _ parts => exact ⟨rfl, parts⟩

/-- A lexeme belongs to one class only. -/
theorem Spells.unique {cs : List Char} (h : Spells kind cs) (h' : Spells kind' cs) : kind = kind' := by
  obtain ⟨c, rest, rfl, shape⟩ := h.exists_shape
  have shape' := spells_iff_shape.mp h'
  cases shape with
  | sign start listed => exact sign_unique listed (shape'.of_sign start)
  | text => exact shape'.of_quote.1.symm
  | number start => exact (shape'.of_digit start).1.symm
  | word start => exact (shape'.of_word start).1.symm

/-- No lexeme starts with a blank. -/
theorem Shape.not_space (h : Shape kind c cs) : Segment.isSpace c = false := by
  cases h with
  | sign start => simpa using sign_spec (P := fun c => !Segment.isSpace c) (by decide) start
  | text => rfl
  | number start => simpa using Number.digit_spec (P := fun c => !Segment.isSpace c) (by decide) start
  | word start =>
    cases space : Segment.isSpace c with
    | false => rfl
    | true =>
      simp only [Segment.isSpace, Bool.or_eq_true, beq_iff_eq] at space
      rcases space with ((rfl | rfl) | rfl) | rfl <;> exact absurd start (by decide)

/-- A sign that is no pair by itself is the first character of a pair, or it is a slash. -/
theorem of_isSign (h : isSign c = true) :
    (singleKind? c).isSome = true ∨ (pairKind? c).isSome = true ∨ c = '/' := by
  have table := sign_spec (P := fun c => (singleKind? c).isSome || (pairKind? c).isSome || c == '/')
    (by decide) h
  simpa [or_assoc] using table

end Shapes

/-! ### The tables of signs -/

section Tables

variable {c second : Char} {kind pair alone : Kind}

theorem sign_of_single (h : singleKind? c = some kind) : ([c], kind) ∈ signs ∧ pairKind? c = none := by
  unfold singleKind? at h
  split at h <;> cases h <;> decide

theorem sign_of_pair (h : pairKind? c = some (second, pair, alone)) :
    ([c], alone) ∈ signs ∧ ([c, second], pair) ∈ signs ∧ c ≠ '/' := by
  unfold pairKind? at h
  split at h <;> cases h <;> decide

/-- Nothing but a sign starts with the character of one, and only a pair goes on behind it. -/
theorem Shape.of_listed {kind' : Kind} {cs rest : List Char} (listed : (c :: cs, kind) ∈ signs)
    (h : Shape kind' c rest) :
    rest = [] ∨ ∃ d alone, rest = [d] ∧ pairKind? c = some (d, kind', alone) := by
  rcases sign_shape (h.of_sign (isSign_of_listed listed)) with ⟨_, same⟩ | ⟨_, d, alone, same, pair⟩
  · cases same
    exact .inl rfl
  · cases same
    exact .inr ⟨d, alone, rfl, pair⟩

end Tables

end Token

/-! ## What is read fits -/

namespace Segment

section Reading

variable {c : Char} {rest : List Char}

/-- A lexeme fits if no other one that starts there is longer. -/
theorem Fits.of_shape {kind : Token.Kind} {cs after : List Char} (shape : Token.Shape kind c cs)
    (noComment : c = '/' → ¬['/'] <+: cs ++ after)
    (longest : ∀ kind' cs', Token.Shape kind' c cs' → cs' <+: cs ++ after → cs'.length ≤ cs.length) :
    Fits ⟨.token kind, c :: cs⟩ after := by
  refine .token shape.spells ?_ ?_
  · intro comment
    obtain ⟨same, more⟩ := List.cons_prefix_cons.mp comment
    exact noComment same.symm more
  · intro kind' cs' spelled begins
    obtain ⟨c', rest', rfl, shape'⟩ := spelled.exists_shape
    obtain ⟨rfl, more⟩ := List.cons_prefix_cons.mp begins
    exact Nat.succ_le_succ (longest kind' rest' shape' more)

theorem fits_single {kind : Token.Kind} (h : Token.singleKind? c = some kind) :
    Fits ⟨.token kind, [c]⟩ rest := by
  obtain ⟨listed, noPair⟩ := Token.sign_of_single h
  refine .of_shape (.sign (Token.isSign_of_listed listed) listed) ?_ ?_
  · rintro rfl
    cases h
  · intro kind' cs' shape _
    rcases shape.of_listed listed with rfl | ⟨d, alone, -, pair⟩
    · exact Nat.le_refl _
    · rw [noPair] at pair
      cases pair

theorem fits_readPair {second : Char} {pair alone : Token.Kind}
    (h : Token.pairKind? c = some (second, pair, alone)) :
    (readPair c second pair alone rest).1.Fits (readPair c second pair alone rest).2 := by
  obtain ⟨listed, listedPair, noSlash⟩ := Token.sign_of_pair h
  have start := Token.isSign_of_listed listed
  -- what holds of the first character alone, as long as the second does not follow
  have single (different : rest.head? ≠ some second) : Fits ⟨.token alone, [c]⟩ rest := by
    refine .of_shape (.sign start listed) (fun slash => absurd slash noSlash) ?_
    intro kind' cs' shape begins
    rcases shape.of_listed listed with rfl | ⟨d, alone', rfl, found⟩
    · exact Nat.le_refl _
    · -- the only longer sign is the pair, whose second character does not follow
      rw [h] at found
      cases found
      obtain ⟨more, rfl⟩ := begins
      exact absurd rfl different
  cases rest with
  | nil => exact single nofun
  | cons d rest =>
    simp only [readPair]
    by_cases same : d = second
    · subst same
      rw [if_pos (beq_self_eq_true d)]
      refine .of_shape (.sign start listedPair) (fun slash => absurd slash noSlash) ?_
      intro kind' cs' shape _
      rcases shape.of_listed listed with rfl | ⟨_, _, rfl, -⟩
      · exact Nat.zero_le _
      · exact Nat.le_refl _
    · rw [if_neg (by simpa using same)]
      exact single (by simpa using same)

theorem fits_readSlash : (readSlash '/' rest).1.Fits (readSlash '/' rest).2 := by
  unfold readSlash
  split
  · rename_i rest
    refine .comment (fun inside => ?_) ?_
    · simpa using List.mem_takeWhile_imp inside
    · cases stopped : rest.dropWhile (· != '\n') with
      | nil => exact .inl rfl
      | cons d more =>
        have stop := List.head_dropWhile_not (· != '\n') (l := rest) (by simp [stopped])
        simp only [stopped, List.head_cons, bne_eq_false_iff_eq] at stop
        exact .inr (congrArg some stop)
  · rename_i noComment
    have listed : (['/'], Token.Kind.slash) ∈ Token.signs := by decide
    refine .of_shape (.sign (Token.isSign_of_listed listed) listed) ?_ ?_
    · rintro - ⟨more, same⟩
      exact noComment more same.symm
    · intro kind' cs' shape _
      rcases shape.of_listed listed with rfl | ⟨d, alone, -, pair⟩
      · exact Nat.le_refl _
      · cases pair

theorem fits_readText : (readText '"' rest).1.Fits (readText '"' rest).2 := by
  have inside : '"' ∉ rest.takeWhile (· != '"') := fun h => by simpa using List.mem_takeWhile_imp h
  unfold readText
  split
  · rename_i quote after found
    have stop := List.head_dropWhile_not (· != '"') (l := rest) (by simp [found])
    simp only [found, List.head_cons, bne_eq_false_iff_eq] at stop
    subst stop
    refine .of_shape (.text inside) (fun slash => absurd slash (by decide)) ?_
    intro kind' cs' shape begins
    obtain ⟨-, body, free, rfl⟩ := shape.of_quote
    -- both texts end at the first quote
    obtain ⟨more, same⟩ := begins
    have split : rest = body ++ '"' :: more := by
      rw [← List.takeWhile_append_dropWhile (p := (· != '"')) (l := rest), found]
      simpa using same.symm
    have free' : ∀ d ∈ body, (d != '"') = true := by
      intro d member
      rw [bne_iff_ne]
      rintro rfl
      exact free member
    rw [split, takeWhile_append_stops free' (Cuts.stops_cons (by decide))]
    exact Nat.le_refl _
  · rename_i found
    refine .unterminated fun h => ?_
    have none' := List.dropWhile_eq_nil_iff.mp found _ h
    simp at none'

/-- A part of a class of characters ends where the whole run of them ends, or before. -/
theorem length_le_takeWhile {p : Char → Bool} {cs : List Char} (inside : ∀ d ∈ cs, p d = true)
    (begins : cs <+: rest) : cs.length ≤ (rest.takeWhile p).length := by
  obtain ⟨more, rfl⟩ := begins
  rw [List.takeWhile_append_of_pos inside, List.length_append]
  exact Nat.le_add_right _ _

theorem digits_run (start : isDigit c = true) : Number.Digits (c :: rest.takeWhile isDigit) := by
  refine ⟨fun d member => ?_, List.cons_ne_nil _ _⟩
  rcases List.mem_cons.mp member with rfl | member
  · exact start
  · exact List.mem_takeWhile_imp member

/-- Of a numeral with a point, the digits in front of the point are all that come there. -/
theorem fraction_at {cs : List Char} (numeral : Number.Unsigned (c :: cs)) (begins : cs <+: rest) :
    cs.length ≤ (rest.takeWhile isDigit).length ∨
      ∃ d fs after, isDigit d = true ∧ (∀ e ∈ fs, isDigit e = true) ∧ fs <+: after ∧
        rest.dropWhile isDigit = '.' :: d :: after ∧
        cs.length = (rest.takeWhile isDigit).length + 2 + fs.length := by
  generalize whole : c :: cs = lexeme at numeral
  cases numeral with
  | whole digits =>
    subst whole
    exact .inl (length_le_takeWhile (fun d member => digits.all d (List.mem_cons_of_mem _ member)) begins)
  | @fraction ds fs digits more =>
    obtain ⟨e, ds, rfl⟩ := List.exists_cons_of_ne_nil digits.nonempty
    obtain ⟨d, fs, rfl⟩ := List.exists_cons_of_ne_nil more.nonempty
    rw [List.cons_append] at whole
    obtain ⟨rfl, rfl⟩ := List.cons.inj whole
    obtain ⟨after, rfl⟩ := begins
    have front : ∀ e ∈ ds, isDigit e = true := fun e member => digits.all e (List.mem_cons_of_mem _ member)
    have point : Stops isDigit ('.' :: d :: (fs ++ after)) := Cuts.stops_cons (by decide)
    have shape : ds ++ '.' :: d :: fs ++ after = ds ++ '.' :: d :: (fs ++ after) := by simp
    refine .inr ⟨d, fs, fs ++ after, more.all d List.mem_cons_self,
      fun e member => more.all e (List.mem_cons_of_mem _ member), List.prefix_append _ _, ?_, ?_⟩
    · rw [shape, dropWhile_append_stops front point]
    · rw [shape, takeWhile_append_stops front point]
      simp only [List.length_append, List.length_cons]
      omega

theorem fits_readNumber (start : isDigit c = true) : (readNumber c rest).1.Fits (readNumber c rest).2 := by
  have noSlash : c ≠ '/' := by
    rintro rfl
    exact absurd start (by decide)
  have run : Number.Digits (c :: rest.takeWhile isDigit) := digits_run start
  -- the digits alone are the numeral if no point with a digit behind it follows
  have alone (noFraction : ∀ d after, rest.dropWhile isDigit = '.' :: d :: after → isDigit d = false) :
      Fits ⟨.token .number, c :: rest.takeWhile isDigit⟩ (rest.dropWhile isDigit) := by
    refine .of_shape (.number start (.whole run)) (fun slash => absurd slash noSlash) ?_
    intro kind' cs' shape begins
    rw [List.takeWhile_append_dropWhile] at begins
    rcases fraction_at (shape.of_digit start).2 begins with short | ⟨d, fs, after, digit, -, -, point, -⟩
    · exact short
    · simp [noFraction d after point] at digit
  simp only [readNumber]
  split
  · rename_i d after point
    split
    · rename_i digit
      have more : Number.Digits (d :: after.takeWhile isDigit) := digits_run digit
      refine .of_shape (.number start (.fraction run more)) (fun slash => absurd slash noSlash) ?_
      intro kind' cs' shape begins
      have whole : rest.takeWhile isDigit ++ '.' :: d :: after.takeWhile isDigit ++ after.dropWhile isDigit
          = rest := by
        rw [List.append_assoc, List.cons_append, List.cons_append, List.takeWhile_append_dropWhile,
          ← point, List.takeWhile_append_dropWhile]
      change cs' <+: rest.takeWhile isDigit ++ '.' :: d :: after.takeWhile isDigit ++ after.dropWhile isDigit
        at begins
      rw [whole] at begins
      change cs'.length ≤ (rest.takeWhile isDigit ++ '.' :: d :: after.takeWhile isDigit).length
      simp only [List.length_append, List.length_cons]
      rcases fraction_at (shape.of_digit start).2 begins with short | ⟨d', fs, after', -, inside, part, point', length⟩
      · omega
      · -- a longer numeral has the same point, so its fraction is part of the run behind it
        rw [point] at point'
        cases point'
        have bound := length_le_takeWhile inside part
        omega
    · rename_i noDigit
      rw [← point]
      refine alone fun d' after' point' => ?_
      rw [point] at point'
      cases point'
      simpa using noDigit
  · rename_i noPoint
    exact alone fun d after point => absurd point (noPoint d after)

theorem fits_readWord (start : isWordStart c = true) : (readWord c rest).1.Fits (readWord c rest).2 := by
  refine .of_shape (.word start fun d member => List.mem_takeWhile_imp member) ?_ ?_
  · rintro rfl
    exact absurd start (by decide)
  · intro kind' cs' shape begins
    change cs' <+: rest.takeWhile isWordPart ++ rest.dropWhile isWordPart at begins
    rw [List.takeWhile_append_dropWhile] at begins
    exact length_le_takeWhile (shape.of_word start).2 begins

theorem mem_spaces : c ∈ [' ', '\r', '\t', '\n'] ↔ isSpace c = true := by
  simp [isSpace, or_assoc]

/-- What is read at a place fits what comes behind it. -/
theorem fits_read (c : Char) (rest : List Char) : (read c rest).1.Fits (read c rest).2 := by
  unfold read
  cases single : Token.singleKind? c with
  | some kind => exact fits_single single
  | none =>
    cases pair : Token.pairKind? c with
    | some found => exact fits_readPair pair
    | none =>
      dsimp only
      by_cases slash : c = '/'
      · subst slash
        exact fits_readSlash
      rw [if_neg (by simpa using slash)]
      by_cases space : isSpace c = true
      · rw [if_pos space]
        exact .blank (mem_spaces.mpr space)
      rw [if_neg space]
      by_cases quote : c = '"'
      · subst quote
        exact fits_readText
      rw [if_neg (by simpa using quote)]
      by_cases digit : isDigit c = true
      · rw [if_pos digit]
        exact fits_readNumber digit
      rw [if_neg digit]
      by_cases letter : isWordStart c = true
      · rw [if_pos letter]
        exact fits_readWord letter
      rw [if_neg letter]
      refine .unexpected (fun blank => space (mem_spaces.mp blank)) ?_
      -- every class of lexemes has been tried
      rintro ⟨kind, cs, spelled⟩
      cases Token.spells_iff_shape.mp spelled with
      | sign start =>
        rcases Token.of_isSign start with found | found | found
        · simp [single] at found
        · simp [pair] at found
        · exact slash found
      | text => exact quote rfl
      | number start => exact digit start
      | word start => exact letter start

end Reading

/-! ## What fits is unique -/

section Unique

variable {s s' : Segment} {after after' : List Char}

/-- No piece is empty. -/
theorem Fits.exists_cons (h : s.Fits after) : ∃ c cs, s.chars = c :: cs := by
  cases h with
  | token spelled =>
    obtain ⟨c, rest, same, -⟩ := spelled.exists_shape
    exact ⟨c, rest, same⟩
  | blank | comment | unexpected | unterminated => exact ⟨_, _, rfl⟩

/-- Where a lexeme starts that does not look like a comment, the piece is a token. -/
theorem Fits.exists_token {kind : Token.Kind} {cs : List Char} (h : s.Fits after)
    (spelled : Token.Spells kind cs) (begins : cs <+: s.chars ++ after)
    (noComment : ¬['/', '/'] <+: s.chars ++ after) : ∃ kind', s.sort = .token kind' := by
  obtain ⟨c, rest, rfl, shape⟩ := spelled.exists_shape
  cases h with
  | token => exact ⟨_, rfl⟩
  | blank space =>
    obtain ⟨rfl, -⟩ := List.cons_prefix_cons.mp begins
    exact absurd (mem_spaces.mp space) (by simp [shape.not_space])
  | comment => exact absurd (List.prefix_append _ _) noComment
  | unexpected _ startless =>
    obtain ⟨rfl, -⟩ := List.cons_prefix_cons.mp begins
    exact absurd ⟨kind, rest, spelled⟩ startless
  | unterminated inside =>
    -- the lexeme would be a text, and it would be closed
    obtain ⟨rfl, more⟩ := List.cons_prefix_cons.mp begins
    obtain ⟨-, body, -, rfl⟩ := shape.of_quote
    simp only [List.append_eq, List.append_nil] at more
    exact absurd (more.subset (by simp)) inside

/-- Two slashes start nothing but a comment. -/
theorem Fits.comment_of_slashes (h : s.Fits after) (slashes : ['/', '/'] <+: s.chars ++ after) :
    s.sort = .comment := by
  cases h with
  | token _ noComment => exact absurd slashes noComment
  | comment => rfl
  | blank space =>
    obtain ⟨rfl, -⟩ := List.cons_prefix_cons.mp slashes
    exact absurd space (by decide)
  | unexpected _ startless =>
    obtain ⟨rfl, -⟩ := List.cons_prefix_cons.mp slashes
    exact absurd ⟨.slash, [], .sign (by decide)⟩ startless
  | unterminated =>
    obtain ⟨quote, -⟩ := List.cons_prefix_cons.mp slashes
    exact absurd quote (by decide)

/-- What a piece is that is no token. -/
def sortOf (c : Char) : Segment.Sort :=
  if isSpace c then .blank else if c = '/' then .comment else if c = '"' then .unterminated else .unexpected

theorem Fits.sort_eq {c : Char} {cs : List Char} (h : s.Fits after) (start : s.chars = c :: cs)
    (noToken : ∀ kind, s.sort ≠ .token kind) : s.sort = sortOf c := by
  cases h with
  | token => exact absurd rfl (noToken _)
  | blank space =>
    cases start
    simp [sortOf, mem_spaces.mp space]
  | comment =>
    cases start
    rfl
  | unexpected noSpace startless =>
    cases start
    have noSlash : c ≠ '/' := by
      rintro rfl
      exact startless ⟨.slash, [], .sign (by decide)⟩
    have noQuote : c ≠ '"' := by
      rintro rfl
      exact startless ⟨.text, _, .text List.not_mem_nil⟩
    rw [mem_spaces] at noSpace
    simp [sortOf, noSpace, noSlash, noQuote]
  | unterminated =>
    cases start
    rfl

/-- A comment is what comes before the end of its line. -/
theorem comment_unique {cs cs' : List Char} (inside : '\n' ∉ cs) (inside' : '\n' ∉ cs')
    (ends : after = [] ∨ after.head? = some '\n') (ends' : after' = [] ∨ after'.head? = some '\n')
    (same : cs ++ after = cs' ++ after') : cs = cs' := by
  have run {cs after : List Char} (inside : '\n' ∉ cs) (ends : after = [] ∨ after.head? = some '\n') :
      (cs ++ after).takeWhile (· != '\n') = cs := by
    refine takeWhile_append_stops (fun d member => ?_) fun d rest start => ?_
    · rw [bne_iff_ne]
      rintro rfl
      exact inside member
    · subst start
      simpa using ends
  rw [← run inside ends, same, run inside' ends']

/-- Two pieces that fit at the same place are the same. -/
theorem Fits.unique (h : s.Fits after) (h' : s'.Fits after')
    (same : s.chars ++ after = s'.chars ++ after') : s = s' ∧ after = after' := by
  suffices s = s' by
    subst this
    exact ⟨rfl, List.append_cancel_left same⟩
  -- both start with the same character, and it tells a token from the rest
  obtain ⟨c, cs, start⟩ := h.exists_cons
  obtain ⟨c', cs', start'⟩ := h'.exists_cons
  obtain rfl : c = c' := by
    rw [start, start'] at same
    exact (List.cons.inj same).1
  by_cases token : ∃ kind, s.sort = .token kind
  · obtain ⟨kind, token⟩ := token
    cases h with
    | token spelled noComment longest =>
      dsimp only at same
      obtain ⟨kind', token'⟩ :=
        h'.exists_token spelled (same ▸ List.prefix_append _ _) (same ▸ noComment)
      cases h' with
      | token spelled' _ longest' =>
        -- each is as long as the other, since each is the longest
        dsimp only at same
        have atMost := longest' _ _ spelled (same ▸ List.prefix_append _ _)
        have atLeast := longest _ _ spelled' (same ▸ List.prefix_append _ _)
        obtain ⟨rfl, -⟩ := List.append_inj same (Nat.le_antisymm atMost atLeast)
        rw [spelled.unique spelled']
      | blank | comment | unexpected | unterminated => cases token'
    | blank | comment | unexpected | unterminated => cases token
  · have noToken : ∀ kind, s.sort ≠ .token kind := fun kind eq => token ⟨kind, eq⟩
    have noToken' : ∀ kind, s'.sort ≠ .token kind := by
      intro kind eq
      cases h' with
      | token spelled noComment longest =>
        exact token (h.exists_token spelled (same ▸ List.prefix_append _ _) (same ▸ noComment))
      | blank | comment | unexpected | unterminated => cases eq
    -- pieces that are no tokens are told apart by their first characters
    have sorts : s.sort = s'.sort := (h.sort_eq start noToken).trans (h'.sort_eq start' noToken').symm
    cases h with
    | token => exact absurd rfl (noToken _)
    | blank =>
      cases h' with
      | blank =>
        cases start
        cases start'
        rfl
      | _ => cases sorts
    | comment inside ends =>
      cases h' with
      | comment inside' ends' =>
        simp only [List.cons_append, List.cons.injEq, true_and] at same
        rw [comment_unique inside inside' ends ends' same]
      | _ => cases sorts
    | unexpected =>
      cases h' with
      | unexpected =>
        cases start
        cases start'
        rfl
      | _ => cases sorts
    | unterminated =>
      cases h' with
      | unterminated =>
        rw [List.append_nil, List.append_nil] at same
        exact congrArg (Segment.mk .unterminated) same
      | _ => cases sorts

end Unique

end Segment

/-! ## Segmentations -/

namespace Segmentation

open Segment

variable {cs : List Char} {s : Segment} {ss ss' after : List Segment}

theorem nil : Segmentation [] [] := by
  refine ⟨rfl, fun before s after same => ?_⟩
  simp at same

/-- A segmentation goes on behind its first piece. -/
theorem cons_iff : Segmentation cs (s :: ss) ↔ ∃ after,
    s.Fits after ∧ Segmentation after ss ∧ cs = s.chars ++ after := by
  constructor
  · intro h
    refine ⟨ss.flatMap chars, h.fits [] s ss rfl, ⟨rfl, fun before s' after same => ?_⟩, h.whole.symm⟩
    exact h.fits (s :: before) s' after (congrArg (s :: ·) same)
  · rintro ⟨after, fits, rest, rfl⟩
    refine ⟨congrArg (s.chars ++ ·) rest.whole, fun before s' after' same => ?_⟩
    cases before with
    | nil =>
      obtain ⟨rfl, rfl⟩ := List.cons.inj same
      rwa [rest.whole]
    | cons first before =>
      obtain ⟨rfl, behind⟩ := List.cons.inj same
      exact rest.fits before s' after' behind

/-- What a source is cut into is a segmentation of it. -/
theorem of_split (cs : List Char) : Segmentation cs (split cs) := by
  induction cs using split.induct with
  | case1 =>
    rw [split]
    exact nil
  | case2 c rest ih =>
    rw [split]
    exact cons_iff.mpr ⟨_, fits_read c rest, ih, (read_partition c rest).symm⟩

/-- A source has no two segmentations. -/
theorem unique (h : Segmentation cs ss) (h' : Segmentation cs ss') : ss = ss' := by
  have empty {ss : List Segment} (h : Segmentation [] ss) : ss = [] := by
    cases ss with
    | nil => rfl
    | cons s ss =>
      obtain ⟨after, fits, -, none'⟩ := cons_iff.mp h
      obtain ⟨c, rest, start⟩ := fits.exists_cons
      rw [start] at none'
      cases none'
  induction ss generalizing cs ss' with
  | nil =>
    cases h.whole
    exact (empty h').symm
  | cons s ss ih =>
    obtain ⟨after, fits, rest, rfl⟩ := cons_iff.mp h
    cases ss' with
    | nil =>
      rw [← h'.whole] at h
      exact empty h
    | cons s' ss' =>
      obtain ⟨after', fits', rest', same⟩ := cons_iff.mp h'
      obtain ⟨rfl, rfl⟩ := fits.unique fits' same
      rw [ih rest rest']

theorem iff_split : Segmentation cs ss ↔ ss = split cs := by
  constructor
  · intro h
    exact h.unique (of_split cs)
  · rintro rfl
    exact of_split cs

/-- Nothing comes behind a text that is not closed. -/
theorem last_of_unterminated {before : List Segment} (h : Segmentation cs (before ++ s :: after))
    (sort : s.sort = .unterminated) : after = [] := by
  have nothing : after.flatMap chars = [] := by
    have fits := h.fits before s after rfl
    generalize after.flatMap chars = behind at fits
    cases fits with
    | unterminated => rfl
    | token | blank | comment | unexpected => cases sort
  cases after with
  | nil => rfl
  | cons next after =>
    obtain ⟨c, rest, start⟩ := (h.fits _ next after (List.append_cons ..)).exists_cons
    rw [List.flatMap_cons, start] at nothing
    cases nothing

end Segmentation

/-! ## What becomes of the pieces -/

namespace Segment

/-- The kind and the text of the token that a piece is, if it is one. -/
def spelling? (s : Segment) : Option (Token.Kind × String) :=
  match s.sort with
  | .token kind => some (kind, String.ofList s.chars)
  | _ => none

/-- What is complained about in a piece, if there is something. -/
def complaint? (s : Segment) : Option Complaint :=
  match s.sort, s.chars with
  | .unexpected, c :: _ => some (.unexpectedCharacter c)
  | .unterminated, _ => some .unterminatedText
  | _, _ => none

section Located

variable {file : Option String}

theorem spelling_token? (line : Nat) (s : Segment) :
    (token? file (line, s)).map (fun t => (t.kind, t.lexeme.text)) = spelling? s := by
  obtain ⟨sort, chars⟩ := s
  cases sort <;> rfl

theorem complaint_diagnostic? (line : Nat) (s : Segment) :
    (diagnostic? file (line, s)).map Diagnostic.complaint = complaint? s := by
  obtain ⟨sort, chars⟩ := s
  cases sort with
  | unexpected => cases chars <;> rfl
  | token | blank | comment | unterminated => rfl

theorem token?_eq_some_iff {line : Nat} {s : Segment} {t : Token} :
    token? file (line, s) = some t ↔
      spelling? s = some (t.kind, t.lexeme.text) ∧ t.place = ⟨file, line⟩ := by
  obtain ⟨sort, chars⟩ := s
  obtain ⟨kind, text, place⟩ := t
  cases sort <;> simp [token?, spelling?, Token.place, and_assoc, eq_comm]

theorem diagnostic?_eq_some_iff {line : Nat} {s : Segment} {d : Diagnostic} :
    diagnostic? file (line, s) = some d ↔
      complaint? s = some d.complaint ∧ d.spot = .line ∧ d.place = ⟨file, line⟩ := by
  obtain ⟨sort, chars⟩ := s
  obtain ⟨place, spot, complaint⟩ := d
  -- only the two sorts that cannot be read are complained about
  constructor
  · intro found
    cases sort with
    | unexpected =>
      cases chars with
      | nil => cases found
      | cons c cs =>
        cases found
        exact ⟨rfl, rfl, rfl⟩
    | unterminated =>
      cases found
      exact ⟨rfl, rfl, rfl⟩
    | token | blank | comment => cases found
  · rintro ⟨same, rfl, rfl⟩
    cases sort with
    | unexpected =>
      cases chars with
      | nil => cases same
      | cons c cs =>
        cases same
        rfl
    | unterminated =>
      cases same
      rfl
    | token | blank | comment => cases same

variable {α β : Type} {found? : Nat × Segment → Option α} {view : α → β} {kept? : Segment → Option β}
  (views : ∀ line s, (found? (line, s)).map view = kept? s)
include views

/-- What is found in the pieces, places apart, does not depend on where they lie. -/
theorem map_filterMap_locate (line : Nat) (ss : List Segment) :
    ((locate line ss).filterMap found?).map view = ss.filterMap kept? := by
  induction ss generalizing line with
  | nil => rfl
  | cons s ss ih =>
    have first := views line s
    rw [locate, List.filterMap_cons, List.filterMap_cons, ← first]
    cases found? (line, s) with
    | none => exact ih _
    | some x => exact congrArg (view x :: ·) (ih _)

/-- Each thing that is found was found in a piece, on the line that many breaks further down as there
are in front of the piece. -/
theorem exists_piece (ss : List Segment) : ∀ {line k : Nat} {x : α},
    ((locate line ss).filterMap found?)[k]? = some x → ∃ before s after, ss = before ++ s :: after ∧
      (before.filterMap kept?).length = k ∧ found? (line + breaks (before.flatMap chars), s) = some x := by
  induction ss with
  | nil => exact fun h => nomatch h
  | cons s ss ih =>
    intro line k x h
    rw [locate, List.filterMap_cons] at h
    -- what is found behind the first piece is behind its breaks
    have behind {k : Nat} (h : ((locate (line + breaks s.chars) ss).filterMap found?)[k]? = some x) :
        ∃ before s' after, s :: ss = s :: before ++ s' :: after ∧ (before.filterMap kept?).length = k ∧
          found? (line + breaks ((s :: before).flatMap chars), s') = some x := by
      obtain ⟨before, s', after, rfl, count, found⟩ := ih h
      refine ⟨before, s', after, rfl, count, ?_⟩
      rw [List.flatMap_cons, breaks, List.count_append, ← Nat.add_assoc]
      exact found
    have first := views line s
    cases here : found? (line, s) with
    | none =>
      rw [here] at h first
      obtain ⟨before, s', after, same, count, found⟩ := behind h
      refine ⟨s :: before, s', after, same, ?_, found⟩
      rw [List.filterMap_cons, ← first]
      exact count
    | some y =>
      rw [here] at h first
      cases k with
      | zero =>
        cases h
        exact ⟨[], s, ss, rfl, rfl, here⟩
      | succ k =>
        obtain ⟨before, s', after, same, count, found⟩ := behind h
        refine ⟨s :: before, s', after, same, ?_, found⟩
        rw [List.filterMap_cons, ← first]
        exact congrArg (· + 1) count

/-- What is found in a piece comes behind what is found in the pieces in front of it. -/
theorem getElem?_of_piece {line : Nat} {before : List Segment} {s : Segment} {x : α}
    (found : found? (line + breaks (before.flatMap chars), s) = some x) (after : List Segment) :
    ((locate line (before ++ s :: after)).filterMap found?)[(before.filterMap kept?).length]? = some x := by
  rw [← map_filterMap_locate views line before, List.length_map, locate_append, List.filterMap_append,
    List.getElem?_append_right (Nat.le_refl _), Nat.sub_self, locate, List.filterMap_cons_some found]
  rfl

end Located

end Segment

/-- The tokens of a scan are the lexemes among the pieces of the source. -/
theorem TokenList.map_spelling_scan (file : Option String) (source : String) :
    (scan file source).1.tokens.map (fun t => (t.kind, t.lexeme.text))
      = (Segment.split source.toList).filterMap Segment.spelling? := by
  rw [scan_eq]
  exact Segment.map_filterMap_locate Segment.spelling_token? 1 _

/-- The complaints of a scan are about the pieces of the source that cannot be read. -/
theorem TokenList.map_complaint_scan (file : Option String) (source : String) :
    (scan file source).2.map (·.complaint)
      = (Segment.split source.toList).filterMap Segment.complaint? := by
  rw [scan_eq]
  exact Segment.map_filterMap_locate Segment.complaint_diagnostic? 1 _

/-- Each token of a scan is a lexeme of its kind. -/
theorem TokenList.spells_of_mem {file : Option String} {source : String} {t : Token}
    (member : t ∈ (scan file source).1.tokens) : Token.Spells t.kind t.lexeme.text.toList := by
  rw [scan_eq] at member
  obtain ⟨k, found⟩ := List.mem_iff_getElem?.mp member
  obtain ⟨before, s, after, parts, -, here⟩ :=
    Segment.exists_piece Segment.spelling_token? _ found
  have fits := (Segmentation.of_split source.toList).fits before s after parts
  generalize after.flatMap Segment.chars = behind at fits
  cases fits with
  | token spelled =>
    cases here
    simpa using spelled
  | blank | comment | unexpected | unterminated => cases here

/-! ## What tokens mean -/

namespace Token

/-- Signs and keywords are neither texts nor numbers. -/
theorem fixed_kind : ∀ kind ∈ signs.map Prod.snd ++ keywords.map Prod.snd, kind ≠ .text ∧ kind ≠ .number := by
  decide

theorem Spells.exists_body {cs : List Char} (h : Spells .text cs) :
    ∃ body, '"' ∉ body ∧ cs = '"' :: (body ++ ['"']) := by
  cases h with
  | text inside => exact ⟨_, inside, rfl⟩
  | sign listed =>
    have fixed := fixed_kind .text (List.mem_append_left _ (List.mem_map_of_mem listed))
    exact absurd rfl fixed.1
  | keyword listed =>
    have fixed := fixed_kind .text (List.mem_append_right _ (List.mem_map_of_mem listed))
    exact absurd rfl fixed.1

theorem Spells.numeral {cs : List Char} (h : Spells .number cs) : Number.Unsigned cs := by
  cases h with
  | number numeral => exact numeral
  | sign listed =>
    have fixed := fixed_kind .number (List.mem_append_left _ (List.mem_map_of_mem listed))
    exact absurd rfl fixed.2
  | keyword listed =>
    have fixed := fixed_kind .number (List.mem_append_right _ (List.mem_map_of_mem listed))
    exact absurd rfl fixed.2

/-- A text means what stands between its quotes. -/
theorem content_of_spells {t : Token} (h : Spells .text t.lexeme.text.toList) :
    t.lexeme.text = "\"" ++ t.content ++ "\"" := by
  obtain ⟨body, -, same⟩ := h.exists_body
  apply String.toList_inj.mp
  unfold content unquote
  rw [same]
  simp

/-- A numeral means the number that its text is read as. -/
theorem number_of_spells {t : Token} (h : Spells .number t.lexeme.text.toList) :
    Text.number? t.lexeme.text = some t.number := by
  rw [Text.number?_eq (.positive h.numeral), Text.splitSign_unsigned h.numeral]
  rfl

end Token

/-! ## Scanning -/

namespace TokenList

open Segment

/-- A source has one segmentation. Its lexemes in order are the tokens in front of the end, each of the
kind and with the value of its class, and what cannot be read in it is what is complained about. -/
theorem scan_segmentation (file : Option String) (source : String) :
    let pieces := split source.toList
    let scanned := scan file source
    (∀ ss, Segmentation source.toList ss ↔ ss = pieces) ∧
    (∀ before s after, pieces = before ++ s :: after → s.chars ≠ [] ∧
      (['/', '/'] <+: s.chars ++ after.flatMap chars → s.sort = .comment) ∧
      (s.sort = .unterminated → after = [])) ∧
    scanned.1.tokens.map (fun t => (t.kind, t.lexeme.text)) = pieces.filterMap spelling? ∧
    (∀ t ∈ scanned.1.tokens, (t.kind = .text → t.lexeme.text = "\"" ++ t.content ++ "\"") ∧
      (t.kind = .number → Text.number? t.lexeme.text = some t.number)) ∧
    scanned.2.map (·.complaint) = pieces.filterMap complaint? := by
  intro pieces scanned
  refine ⟨fun ss => Segmentation.iff_split, ?_, map_spelling_scan file source, ?_,
    map_complaint_scan file source⟩
  · intro before s after parts
    -- the pieces are the segmentation, so each fits where it stands
    have whole : Segmentation source.toList (before ++ s :: after) := Segmentation.iff_split.mpr parts.symm
    have fits := whole.fits before s after rfl
    obtain ⟨c, rest, start⟩ := fits.exists_cons
    refine ⟨fun none' => ?_, fits.comment_of_slashes, whole.last_of_unterminated⟩
    rw [start] at none'
    cases none'
  · intro t member
    have spelled := spells_of_mem member
    refine ⟨fun kind => ?_, fun kind => ?_⟩
    · rw [kind] at spelled
      exact Token.content_of_spells spelled
    · rw [kind] at spelled
      exact Token.number_of_spells spelled

/-- The tokens are the lexemes of the source in order, each on the line on which its first character
stands, which is one more than the number of breaks in front of it. So it is with the complaints. The
end comes behind all breaks. -/
theorem scan_lines (file : Option String) (source : String) :
    let scanned := scan file source
    (∀ k t, scanned.1.tokens[k]? = some t ↔ ∃ before s after,
      Segmentation source.toList (before ++ s :: after) ∧
      (before.filterMap spelling?).length = k ∧ spelling? s = some (t.kind, t.lexeme.text) ∧
      t.place = ⟨file, 1 + (before.flatMap chars).count '\n'⟩) ∧
    (∀ k d, scanned.2[k]? = some d ↔ ∃ before s after,
      Segmentation source.toList (before ++ s :: after) ∧
      (before.filterMap complaint?).length = k ∧ complaint? s = some d.complaint ∧ d.spot = .line ∧
      d.place = ⟨file, 1 + (before.flatMap chars).count '\n'⟩) ∧
    scanned.1.ending = ⟨file, 1 + source.toList.count '\n'⟩ := by
  intro scanned
  -- the lines of the scanner are those of the cut, which is where the breaks are counted
  have cut : scanned = _ := scan_eq file source
  rw [cut]
  refine ⟨fun k t => ⟨fun found => ?_, ?_⟩, fun k d => ⟨fun found => ?_, ?_⟩, rfl⟩
  · obtain ⟨before, s, after, parts, count, here⟩ := exists_piece spelling_token? _ found
    exact ⟨before, s, after, Segmentation.iff_split.mpr parts.symm, count, token?_eq_some_iff.mp here⟩
  · rintro ⟨before, s, after, whole, rfl, here⟩
    have found := getElem?_of_piece spelling_token? (token?_eq_some_iff.mpr here) after
    rwa [Segmentation.iff_split.mp whole] at found
  · obtain ⟨before, s, after, parts, count, here⟩ := exists_piece complaint_diagnostic? _ found
    exact ⟨before, s, after, Segmentation.iff_split.mpr parts.symm, count, diagnostic?_eq_some_iff.mp here⟩
  · rintro ⟨before, s, after, whole, rfl, here⟩
    have found := getElem?_of_piece complaint_diagnostic? (diagnostic?_eq_some_iff.mpr here) after
    rwa [Segmentation.iff_split.mp whole] at found

end TokenList

end ContractScript
