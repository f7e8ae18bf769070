/-
Data, and the segments of its text.

Data are the values that can be written down: nil, truth values, numbers, texts, and
lists and maps of data. What is left out are functions, numbers that are not written
as plain numerals, and texts with a quote in them, since a quote is not escaped. A map
is written with the keys it shows, so these must be the keys under which its entries
are kept; in a map that was built from its entries they are.

The text of data is put together from segments, and it is cut into the same segments
wherever a character comes next that can only end a value.
-/
import ContractScript.Proofs.Program.Scanning
import ContractScript.Proofs.Value.Equality
import ContractScript.Value.Display

set_option autoImplicit false

namespace ContractScript

namespace Number

/-- A number that is written as a plain numeral, and that the numeral is read as. -/
structure Written (x : Float) : Prop where
  numeral : Numeral (Layout.plain.text x).toList
  readBack : Text.number? (Layout.plain.text x) = some x

/-- Whether the text of a number starts with a minus. -/
def hasSign (x : Float) : Bool :=
  (Text.splitSign (Layout.plain.text x).toList).1

/-- The text of a number behind its sign. -/
def unsignedText (x : Float) : List Char :=
  (Text.splitSign (Layout.plain.text x).toList).2

theorem Written.unsigned {x : Float} (h : Written x) : Unsigned (unsignedText x) :=
  Text.unsigned_splitSign h.numeral

/-- A number is the one that its text spells behind the sign, or the opposite. -/
theorem Written.value {x : Float} (h : Written x) :
    x = if hasSign x then -Token.numberValue (unsignedText x)
      else Token.numberValue (unsignedText x) := by
  have read := h.readBack
  rw [Text.number?_eq h.numeral] at read
  exact (Option.some.inj read).symm

theorem Written.isNaN_eq_false {x : Float} (h : Written x) : isNaN x = false := by
  cases hx : isNaN x with
  | false => rfl
  | true =>
    have text : Layout.plain.text x = "nan" := by
      unfold Layout.text
      rw [hx]
      rfl
    -- a numeral has no letter in it
    have letter := h.numeral.mem_alphabet (c := 'n') (by rw [text]; decide)
    exact absurd letter (by decide)

theorem Written.text_eq {x : Float} (h : Written x) :
    (Layout.plain.text x).toList = (if hasSign x then ['-'] else []) ++ unsignedText x :=
  (Text.sign_append h.numeral).symm

end Number

namespace Store

/-! ## Data -/

/-- Data of at most a number of levels. -/
def Data (s : Store) : Nat → Value → Prop
  | 0, _ => False
  | depth + 1, v =>
    match v with
    | .nil => True
    | .bool _ => True
    | .num x => Number.Written x
    | .text t => '"' ∉ t.toList
    | .list id => id < s.lists.size ∧ ∀ w ∈ (s.items id).toList, s.Data depth w
    | .map id => id < s.maps.size ∧ ∀ e ∈ (s.content id).entries,
        s.Data depth e.2.key ∧ s.Data depth e.2.value ∧ s.key? depth e.2.key = some e.1
    | .function _ => False
    | .native _ => False

/-! ## Segments -/

/-- A comma and a blank, as they stand between items. -/
def separator : List Segment := [⟨.token .comma, [',']⟩, ⟨.blank, [' ']⟩]

/-- A colon and a blank, as they stand between a key and its value. -/
def pairing : List Segment := [⟨.token .colon, [':']⟩, ⟨.blank, [' ']⟩]

/-- The segments of a number. -/
def numberPieces (x : Float) : List Segment :=
  (if Number.hasSign x then [⟨.token .minus, ['-']⟩] else [])
    ++ [⟨.token .number, Number.unsignedText x⟩]

/-- The segments of data. -/
def pieces (s : Store) : Nat → Value → List Segment
  | 0, _ => []
  | depth + 1, v =>
    match v with
    | .nil => [⟨.token .kwNil, ['n', 'i', 'l']⟩]
    | .bool true => [⟨.token .kwTrue, ['t', 'r', 'u', 'e']⟩]
    | .bool false => [⟨.token .kwFalse, ['f', 'a', 'l', 's', 'e']⟩]
    | .num x => numberPieces x
    | .text t => [⟨.token .text, '"' :: (t.toList ++ ['"'])⟩]
    | .list id =>
      ⟨.token .leftSquare, ['[']⟩ ::
        (separator.intercalate ((s.items id).toList.map (s.pieces depth))
          ++ [⟨.token .rightSquare, [']']⟩])
    | .map id =>
      ⟨.token .leftBrace, ['\x7b']⟩ ::
        (separator.intercalate ((s.content id).entries.map fun e =>
            s.pieces depth e.2.key ++ (pairing ++ s.pieces depth e.2.value))
          ++ [⟨.token .rightBrace, ['\x7d']⟩])
    | .function _ => []
    | .native _ => []

/-- The text of data. -/
def written (s : Store) (depth : Nat) (v : Value) : String :=
  String.ofList ((s.pieces depth v).flatMap Segment.chars)

theorem toList_written (s : Store) (depth : Nat) (v : Value) :
    (s.written depth v).toList = (s.pieces depth v).flatMap Segment.chars :=
  String.toList_ofList

/-! ## The text of data -/

theorem flatMap_intercalate (ps : List Segment) (l : List (List Segment)) :
    (ps.intercalate l).flatMap Segment.chars
      = (ps.flatMap Segment.chars).intercalate (l.map fun qs => qs.flatMap Segment.chars) := by
  induction l with
  | nil => rfl
  | cons qs rest ih =>
    cases rest with
    | nil => simp
    | cons rs rest => simp [List.intercalate_cons_cons, ih]

theorem toList_numberPieces {x : Float} (h : Number.Written x) :
    (numberPieces x).flatMap Segment.chars = (Number.Layout.plain.text x).toList := by
  rw [h.text_eq, numberPieces]
  split <;> simp

/-- A step that succeeds on every item yields all results. -/
theorem mapM_eq_some_map {α β : Type} {f : α → Option β} {g : α → β} {xs : List α}
    (h : ∀ x ∈ xs, f x = some (g x)) : xs.mapM f = some (xs.map g) := by
  rw [mapM_eq_some, List.map_map]
  exact List.map_congr_left h

/-- Data are shown as the text of their segments. -/
theorem show?_eq {s : Store} {levels : Nat} : ∀ {v : Value} {depth : Nat}, s.Data levels v →
    levels ≤ depth → s.show? depth true v = some (s.written levels v) := by
  induction levels with
  | zero => exact fun h => h.elim
  | succ levels ih =>
    intro v depth h enough
    obtain ⟨depth, rfl⟩ : ∃ d, depth = d + 1 := ⟨depth - 1, by omega⟩
    have below : levels ≤ depth := by omega
    cases v with
    | nil => rfl
    | bool b => cases b <;> rfl
    | num x =>
      have text : s.written (levels + 1) (.num x) = Number.Layout.plain.text x := by
        rw [← String.toList_inj, toList_written]
        exact toList_numberPieces h
      rw [text]
      rfl
    | text t =>
      have text : s.written (levels + 1) (.text t) = quoteText t := by
        rw [← String.toList_inj, toList_written]
        simp [pieces, quoteText]
      rw [text]
      rfl
    | list id =>
      have items := mapM_eq_some_map fun w hw => ih (h.2 w hw) below
      have text : s.written (levels + 1) (.list id)
          = "[" ++ ", ".intercalate ((s.items id).toList.map (s.written levels)) ++ "]" := by
        rw [← String.toList_inj, toList_written]
        simp [pieces, flatMap_intercalate, separator, toList_written, Function.comp_def]
      rw [show?, items, text]
      rfl
    | map id =>
      -- an entry is shown as its key and its value, which are data of one level less
      have entries : ∀ e ∈ (s.content id).entries,
          (do
            let key ← s.show? depth true e.2.key
            let value ← s.show? depth true e.2.value
            return key ++ ": " ++ value)
          = some (s.written levels e.2.key ++ ": " ++ s.written levels e.2.value) := by
        intro e he
        rw [ih (h.2 e he).1 below, ih (h.2 e he).2.1 below]
        rfl
      have text : s.written (levels + 1) (.map id) = "\x7b" ++ ", ".intercalate
          ((s.content id).entries.map fun e =>
            s.written levels e.2.key ++ ": " ++ s.written levels e.2.value) ++ "\x7d" := by
        rw [← String.toList_inj, toList_written]
        simp [pieces, flatMap_intercalate, separator, pairing, toList_written, Function.comp_def]
      rw [show?, text, OrderedMap.values, List.mapM_map]
      exact congrArg (Option.map _) (mapM_eq_some_map entries)
    | function id => exact h.elim
    | native f => exact h.elim

/-! ## Cutting the text of data -/

/-- What comes next starts with a character that can only end a value. -/
def Closing (after : List Char) : Prop :=
  ∃ c rest, after = c :: rest ∧ c ∈ [',', ']', '\x7d', ':', ';']

theorem Closing.stops {after : List Char} (h : Closing after) {p : Char → Bool}
    (hp : [',', ']', '\x7d', ':', ';'].any p = false) : Segment.Stops p after := by
  obtain ⟨c, rest, rfl, hc⟩ := h
  exact Segment.Cuts.stops_cons (Bool.not_eq_true _ ▸ List.any_eq_false.mp hp c hc)

theorem cuts_intercalate {l : List (List Segment)}
    (h : ∀ ps ∈ l, ∀ after, Closing after → Segment.Cuts ps after) {after : List Char}
    (closing : Closing after) : Segment.Cuts (separator.intercalate l) after := by
  induction l with
  | nil => exact .nil
  | cons ps rest ih =>
    have first := h ps List.mem_cons_self
    have others := ih fun qs hqs => h qs (List.mem_cons_of_mem _ hqs)
    cases rest with
    | nil =>
      rw [List.intercalate_singleton]
      exact first after closing
    | cons qs rest =>
      rw [List.intercalate_cons_cons, List.append_assoc]
      -- an item ends at the comma behind it
      exact (first _ ⟨',', _, rfl, by decide⟩).append (.cons (.single rfl) (.cons .blank others))

theorem cuts_numberPieces {x : Float} (h : Number.Written x) {after : List Char}
    (closing : Closing after) : Segment.Cuts (numberPieces x) after := by
  have digits : Segment.Cuts [⟨.token .number, Number.unsignedText x⟩] after :=
    .number h.unsigned (closing.stops (by decide)) (closing.stops (by decide))
  unfold numberPieces
  split
  · exact .cons (.single rfl) digits
  · exact digits

/-- The text of data is cut into its segments before anything that ends a value. -/
theorem cuts_pieces {s : Store} {levels : Nat} : ∀ {v : Value} {after : List Char},
    s.Data levels v → Closing after → Segment.Cuts (s.pieces levels v) after := by
  induction levels with
  | zero => exact fun h => h.elim
  | succ levels ih =>
    intro v after h closing
    have ends : Segment.Stops Segment.isWordPart after := closing.stops (by decide)
    cases v with
    | nil => exact .word (fun _ => rfl) (by decide) ends
    | bool b =>
      cases b with
      | true => exact .word (fun _ => rfl) (by decide) ends
      | false => exact .word (fun _ => rfl) (by decide) ends
    | num x => exact cuts_numberPieces h closing
    | text t => exact .text h
    | list id =>
      refine .cons (.single rfl) (.append (cuts_intercalate ?_ ⟨']', _, rfl, by decide⟩)
        (.single rfl))
      intro ps hps after closing
      obtain ⟨w, hw, rfl⟩ := List.mem_map.mp hps
      exact ih (h.2 w hw) closing
    | map id =>
      refine .cons (.single rfl) (.append (cuts_intercalate ?_ ⟨'\x7d', _, rfl, by decide⟩)
        (.single rfl))
      intro ps hps after closing
      obtain ⟨e, he, rfl⟩ := List.mem_map.mp hps
      obtain ⟨key, value, -⟩ := h.2 e he
      -- a key ends at its colon, and the colon at the blank behind it
      exact (ih key ⟨':', _, rfl, by decide⟩).append
        (.cons .colon (.cons .blank (ih value closing)))
    | function id => exact h.elim
    | native f => exact h.elim

/-- No segment of data calls for a diagnostic. -/
theorem clean_pieces (s : Store) (levels : Nat) : ∀ v : Value, Segment.Clean (s.pieces levels v) := by
  induction levels with
  | zero => exact fun _ => .nil
  | succ levels ih =>
    -- data or not: what is no data has no segments at all
    have between : Segment.Clean separator := .token (.blank .nil)
    intro v
    cases v with
    | nil | text => exact .token .nil
    | bool b => cases b <;> exact .token .nil
    | num x =>
      show Segment.Clean (numberPieces x)
      unfold numberPieces
      split
      · exact .token (.token .nil)
      · exact .token .nil
    | list id =>
      refine .token (.append (.intercalate between ?_) (.token .nil))
      intro ps hps
      obtain ⟨w, -, rfl⟩ := List.mem_map.mp hps
      exact ih w
    | map id =>
      refine .token (.append (.intercalate between ?_) (.token .nil))
      intro ps hps
      obtain ⟨e, -, rfl⟩ := List.mem_map.mp hps
      exact .append (ih e.2.key) (.token (.blank (ih e.2.value)))
    | function | native => exact .nil

end Store

end ContractScript
