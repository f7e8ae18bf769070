/-
Plain numerals, and what the two ways to read a number make of them.

A plain numeral is a run of digits, perhaps with a point and more digits behind it,
and perhaps with a minus in front. A text that people type may hold much more than
that: blanks, a plus, underscores, digits of other scripts, an exponent. A number in
a program is a token and may hold no sign either, so a negative number is a minus and
a token. On plain numerals the two agree.
-/
import ContractScript.Segment
import ContractScript.Text.Numeral
import Mathlib.Data.List.TakeWhile

set_option autoImplicit false

namespace ContractScript

namespace Number

/-! ## Numerals -/

/-- At least one digit and nothing else. -/
structure Digits (cs : List Char) : Prop where
  all : ∀ c ∈ cs, Segment.isDigit c = true
  nonempty : cs ≠ []

/-- Digits, perhaps with a point and digits behind it. -/
inductive Unsigned : List Char → Prop
  | whole {ds : List Char} : Digits ds → Unsigned ds
  | fraction {ds fs : List Char} : Digits ds → Digits fs → Unsigned (ds ++ '.' :: fs)

/-- A plain numeral. -/
inductive Numeral : List Char → Prop
  | positive {cs : List Char} : Unsigned cs → Numeral cs
  | negative {cs : List Char} : Unsigned cs → Numeral ('-' :: cs)

/-! ## Characters -/

/-- The characters of which numerals are made. -/
def numeralAlphabet : List Char :=
  ['0', '1', '2', '3', '4', '5', '6', '7', '8', '9', '.', '-']

/-- A digit is one of ten characters, so what holds of these holds of it. -/
theorem digit_mem {c : Char} (h : Segment.isDigit c = true) : c ∈ numeralAlphabet.take 10 := by
  have bounds : 48 ≤ c.toNat ∧ c.toNat ≤ 57 := by
    unfold Segment.isDigit at h
    rw [Bool.and_eq_true, decide_eq_true_eq, decide_eq_true_eq] at h
    exact h
  have code : c = Char.ofNat c.toNat := (Char.ofNat_toNat c).symm
  -- the codes are few enough to look at each
  have cases : ∀ n, n < 58 → 48 ≤ n → Char.ofNat n ∈ numeralAlphabet.take 10 := by decide
  rw [code]
  exact cases c.toNat (by omega) bounds.1

theorem digit_spec {P : Char → Bool} (hP : (numeralAlphabet.take 10).all P = true) {c : Char}
    (h : Segment.isDigit c = true) : P c = true :=
  List.all_eq_true.mp hP c (digit_mem h)

theorem Digits.mem_alphabet {ds : List Char} (h : Digits ds) {c : Char} (hc : c ∈ ds) :
    c ∈ numeralAlphabet :=
  List.mem_of_mem_take (digit_mem (h.all c hc))

theorem Unsigned.mem_alphabet {cs : List Char} (h : Unsigned cs) {c : Char} (hc : c ∈ cs) :
    c ∈ numeralAlphabet := by
  cases h with
  | whole hd => exact hd.mem_alphabet hc
  | fraction hd hf =>
    rcases List.mem_append.mp hc with hc | hc
    · exact hd.mem_alphabet hc
    · rcases List.mem_cons.mp hc with rfl | hc
      · decide
      · exact hf.mem_alphabet hc

theorem Numeral.mem_alphabet {cs : List Char} (h : Numeral cs) {c : Char} (hc : c ∈ cs) :
    c ∈ numeralAlphabet := by
  cases h with
  | positive hu => exact hu.mem_alphabet hc
  | negative hu =>
    rcases List.mem_cons.mp hc with rfl | hc
    · decide
    · exact hu.mem_alphabet hc

/-- What holds of all characters of numerals holds of those of a numeral. -/
theorem alphabet_spec {P : Char → Prop} [DecidablePred P]
    (hP : (numeralAlphabet.all fun c => decide (P c)) = true) {c : Char}
    (h : c ∈ numeralAlphabet) : P c :=
  of_decide_eq_true (List.all_eq_true.mp hP c h)

/-- A numeral without a sign starts with a digit. -/
theorem Unsigned.exists_cons {cs : List Char} (h : Unsigned cs) :
    ∃ c rest, cs = c :: rest ∧ Segment.isDigit c = true := by
  have start : ∀ {ds : List Char} (more : List Char), Digits ds →
      ∃ c rest, ds ++ more = c :: rest ∧ Segment.isDigit c = true := by
    intro ds more hd
    obtain ⟨c, rest, rfl⟩ := List.exists_cons_of_ne_nil hd.nonempty
    exact ⟨c, rest ++ more, rfl, hd.all c List.mem_cons_self⟩
  cases h with
  | whole hd =>
    have found := start [] hd
    rwa [List.append_nil] at found
  | fraction hd hf => exact start _ hd

end Number

namespace Text

open Number

/-! ## Reading a text that is a numeral -/

/-- Nothing is taken off the ends if nothing would be. -/
theorem trimWhere_eq {test : Char → Bool} {cs : List Char} (h : ∀ c ∈ cs, test c = false) :
    trimWhere test cs = cs := by
  have still : ∀ {ds : List Char}, (∀ c ∈ ds, test c = false) → ds.dropWhile test = ds := by
    intro ds hd
    cases ds with
    | nil => rfl
    | cons d ds => rw [List.dropWhile_cons, hd d List.mem_cons_self, if_neg Bool.false_ne_true]
  have back : ∀ c ∈ cs.reverse, test c = false := fun c hc => h c (List.mem_reverse.mp hc)
  rw [trimWhere, still h, still back, List.reverse_reverse]

/-- A numeral consists of significant characters, all of them as they stand. -/
theorem numeralChars_eq {text : String} (h : Numeral text.toList) :
    numeralChars text = text.toList := by
  have blanks : ∀ c ∈ text.toList, isNumeralBlank c = false := fun c hc =>
    alphabet_spec (P := fun c => isNumeralBlank c = false) (by decide) (h.mem_alphabet hc)
  have digits : ∀ c ∈ text.toList, plainDigit c = c := fun c hc =>
    alphabet_spec (P := fun c => plainDigit c = c) (by decide +kernel) (h.mem_alphabet hc)
  rw [numeralChars, trimWhere_eq blanks, List.map_congr_left digits, List.map_id']

theorem digitRun?_eq {ds : List Char} (h : Digits ds) : digitRun? ds = some ds := by
  have isDigit : ∀ {c : Char}, Segment.isDigit c = true → c.isDigit = true :=
    fun hc => digit_spec (P := Char.isDigit) (by decide) hc
  have notMark : ∀ {c : Char}, Segment.isDigit c = true → c ≠ '_' := by
    rintro c hc rfl
    exact absurd hc (by decide)
  obtain ⟨all, nonempty⟩ := h
  induction ds with
  | nil => exact absurd rfl nonempty
  | cons c ds ih =>
    have first := isDigit (all c List.mem_cons_self)
    cases ds with
    | nil => rw [digitRun?, if_pos first]
    | cons d ds =>
      have second := notMark (all d (List.mem_cons_of_mem _ List.mem_cons_self))
      have rest := ih (fun c' hc' => all c' (List.mem_cons_of_mem _ hc')) (List.cons_ne_nil d ds)
      -- a mark between digits would be skipped, but a digit is no mark
      rw [digitRun?, if_pos first, rest]
      · rfl
      · exact List.cons_ne_nil d ds
      · rintro more ⟨⟩
        exact second rfl

theorem optionalRun?_eq {ds : List Char} (h : Digits ds) : optionalRun? ds = some ds := by
  have nonempty : ds.isEmpty = false := by
    cases ds with
    | nil => exact absurd rfl h.nonempty
    | cons d ds => rfl
  rw [optionalRun?, nonempty, if_neg Bool.false_ne_true, digitRun?_eq h]

/-- The parts of a numeral before and behind its point. -/
theorem parts_of_unsigned {cs : List Char} (h : Unsigned cs) :
    Digits (cs.takeWhile (· != '.')) ∧
      ((cs.dropWhile (· != '.')).drop 1 = [] ∨ Digits ((cs.dropWhile (· != '.')).drop 1)) := by
  have noPoint : ∀ {ds : List Char}, Digits ds → ∀ c ∈ ds, (c != '.') = true :=
    fun hd c hc => digit_spec (P := fun c => c != '.') (by decide) (hd.all c hc)
  cases h with
  | whole hd =>
    rw [List.takeWhile_eq_self_iff.mpr (noPoint hd), List.dropWhile_eq_nil_iff.mpr (noPoint hd)]
    exact ⟨hd, .inl rfl⟩
  | fraction hd hf =>
    have stops : ('.' != '.') = false := by decide
    rw [List.takeWhile_append_of_pos (noPoint hd), List.dropWhile_append_of_pos (noPoint hd),
      List.takeWhile_cons, List.dropWhile_cons, stops, if_neg Bool.false_ne_true,
      if_neg Bool.false_ne_true, List.append_nil]
    exact ⟨hd, .inr hf⟩

/-- A numeral is none of the words that spell a number. -/
theorem not_word_of_unsigned {cs : List Char} (h : Unsigned cs) (word : String)
    (hw : word ∈ ["inf", "infinity", "nan"]) :
    (String.ofList (cs.map Char.toLower) == word) = false := by
  obtain ⟨c, rest, rfl, hc⟩ := h.exists_cons
  have digit : Segment.isDigit c.toLower = true :=
    digit_spec (P := fun c => Segment.isDigit c.toLower) (by decide) hc
  -- lower case leaves a digit as it is, and each of the words starts with a letter
  have letter : ∀ w ∈ ["inf", "infinity", "nan"], w.toList.head?.any Segment.isDigit = false := by
    decide
  apply beq_false_of_ne
  rintro rfl
  have first := letter _ hw
  rw [String.toList_ofList, List.map_cons, List.head?_cons, Option.any_some, digit] at first
  cases first

/-- A numeral without a sign is read as a text as it is as a token. -/
theorem unsignedNumber?_eq {cs : List Char} (h : Unsigned cs) :
    unsignedNumber? cs = some (Token.numberValue cs) := by
  have noMark : ∀ c ∈ cs, (!isExponentMark c) = true := fun c hc =>
    alphabet_spec (P := fun c => (!isExponentMark c) = true) (by decide) (h.mem_alphabet hc)
  obtain ⟨whole, fraction⟩ := parts_of_unsigned h
  have fractionRun : optionalRun? ((cs.dropWhile (· != '.')).drop 1)
      = some ((cs.dropWhile (· != '.')).drop 1) := by
    rcases fraction with none | digits
    · rw [none]
      rfl
    · exact optionalRun?_eq digits
  have nonempty : (cs.takeWhile (· != '.')).isEmpty = false :=
    List.isEmpty_eq_false_iff.mpr whole.nonempty
  unfold unsignedNumber?
  simp only [not_word_of_unsigned h "inf" (by decide),
    not_word_of_unsigned h "infinity" (by decide),
    not_word_of_unsigned h "nan" (by decide), Bool.or_self, Bool.false_eq_true, if_false,
    List.takeWhile_eq_self_iff.mpr noMark, List.dropWhile_eq_nil_iff.mpr noMark,
    optionalRun?_eq whole, fractionRun, exponent?, nonempty, Bool.false_and]
  rfl

theorem splitSign_unsigned {cs : List Char} (h : Unsigned cs) : splitSign cs = (false, cs) := by
  obtain ⟨c, rest, rfl, hc⟩ := h.exists_cons
  unfold splitSign
  split
  · rename_i hsign
    cases hsign
    exact absurd hc (by decide)
  · rename_i hsign
    cases hsign
    exact absurd hc (by decide)
  · rfl

/-- Without its sign a numeral is unsigned. -/
theorem unsigned_splitSign {cs : List Char} (h : Numeral cs) : Unsigned (splitSign cs).2 := by
  cases h with
  | positive hu =>
    rw [splitSign_unsigned hu]
    exact hu
  | negative hu => exact hu

theorem sign_append {cs : List Char} (h : Numeral cs) :
    (if (splitSign cs).1 then ['-'] else []) ++ (splitSign cs).2 = cs := by
  cases h with
  | positive hu =>
    rw [splitSign_unsigned hu]
    rfl
  | negative hu => rfl

/-- A numeral is read as the token behind its sign is, negated if the sign is a minus. -/
theorem number?_eq {text : String} (h : Numeral text.toList) :
    number? text = some (if (splitSign text.toList).1 then
      -Token.numberValue (splitSign text.toList).2 else Token.numberValue (splitSign text.toList).2) := by
  rw [number?, numeralChars_eq h]
  simp only [unsignedNumber?_eq (unsigned_splitSign h), Option.map_some]

end Text

end ContractScript
