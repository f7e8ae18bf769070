/-
Outlines that are read back.

An outline is a list of lines that are indented by their depth. Such a list is a tree: a
line, and below it the lines that are one step deeper. How far a line is indented tells
where the lines below another end, as long as no line starts with a blank by itself, and
an indentation of no blanks would tell nothing.

That the text tells its lines is less plain, since what stands between quotes may go over
several lines and may look like lines of an outline. But nothing else does, and nothing
between quotes holds a quote, so the first line end outside of quotes is where a line ends.
-/
import ContractScript.Program.Outline

set_option autoImplicit false

namespace ContractScript

namespace Outline

/-! ## Trees of lines -/

/-- A line and the lines below it, without their indentation. -/
inductive Entry where
  | mk (line : String) (below : List Entry)

mutual

/-- The lines of a line and of those below it, indented. -/
def Entry.lines (step : String) (level : Nat) : Entry → List String
  | .mk line below => (indent step level ++ line) :: Entry.allLines step (level + 1) below

/-- The lines of several, one behind the other. -/
def Entry.allLines (step : String) (level : Nat) : List Entry → List String
  | [] => []
  | e :: rest => e.lines step level ++ Entry.allLines step level rest

end

mutual

/-- A property of a line and of all that are below it. -/
def Entry.All (P : String → Prop) : Entry → Prop
  | .mk line below => P line ∧ Entry.AllIn P below

/-- The same of several. -/
def Entry.AllIn (P : String → Prop) : List Entry → Prop
  | [] => True
  | e :: rest => e.All P ∧ Entry.AllIn P rest

end

theorem Entry.AllIn.append {P : String → Prop} {es es' : List Entry} (h : Entry.AllIn P es)
    (h' : Entry.AllIn P es') : Entry.AllIn P (es ++ es') := by
  induction es with
  | nil => exact h'
  | cons e rest ih => exact ⟨h.1, ih h.2⟩

theorem Entry.allLines_append (step : String) (level : Nat) (es es' : List Entry) :
    Entry.allLines step level (es ++ es')
      = Entry.allLines step level es ++ Entry.allLines step level es' := by
  induction es with
  | nil => rfl
  | cons e rest ih => simp only [List.cons_append, Entry.allLines, ih, List.append_assoc]

mutual

/-- The tree of an outline. -/
def entries : Outline → List Entry
  | .node title fields => [.mk (title ++ ":") (fieldEntries fields)]
  | .word _ => []
  | .words _ => []
  | .nodes items => itemEntries items

/-- The trees of labelled fields. -/
def fieldEntries : List (String × Outline) → List Entry
  | [] => []
  | (label, value) :: rest => fieldEntry label value :: fieldEntries rest

/-- The tree of one field. -/
def fieldEntry (label : String) : Outline → Entry
  | .node title fields => .mk ("- " ++ label ++ ":") [.mk (title ++ ":") (fieldEntries fields)]
  | .word text => .mk ("- " ++ label ++ ": " ++ text) []
  | .words [] => .mk ("- " ++ label ++ ": []") []
  | .words items => .mk ("- " ++ label ++ ":") (items.map fun item => .mk ("- " ++ item) [])
  | .nodes [] => .mk ("- " ++ label ++ ": []") []
  | .nodes items => .mk ("- " ++ label ++ ":") (itemEntries items)

/-- The trees of a list of nodes. -/
def itemEntries : List Outline → List Entry
  | [] => []
  | item :: rest => entries item ++ itemEntries rest

end

theorem allLines_words (step : String) (level : Nat) (items : List String) :
    Entry.allLines step level (items.map fun item => .mk ("- " ++ item) [])
      = items.map fun item => indent step level ++ "- " ++ item := by
  induction items with
  | nil => rfl
  | cons item rest ih =>
    rw [List.map_cons, List.map_cons, Entry.allLines, ih, Entry.lines, Entry.allLines,
      String.append_assoc]
    rfl

mutual

/-- The lines of a node are those of its tree. -/
theorem nodeLines_eq (step : String) :
    (o : Outline) → (level : Nat) → nodeLines step level o = Entry.allLines step level (entries o)
  | .node title fields, level => by
    simp only [nodeLines, entries, Entry.allLines, Entry.lines, List.append_nil,
      fieldsLines_eq step fields, String.append_assoc]
  | .word _, level => rfl
  | .words _, level => rfl
  | .nodes items, level => by simp only [nodeLines, entries, itemsLines_eq step items]

theorem fieldsLines_eq (step : String) : (fields : List (String × Outline)) → (level : Nat) →
    fieldsLines step level fields = Entry.allLines step level (fieldEntries fields)
  | [], level => rfl
  | (label, value) :: rest, level => by
    simp only [fieldsLines, fieldEntries, Entry.allLines, fieldLines_eq step label value,
      fieldsLines_eq step rest]

theorem fieldLines_eq (step label : String) : (value : Outline) → (level : Nat) →
    fieldLines step level label value = (fieldEntry label value).lines step level
  | .node title fields, level => by
    simp only [fieldLines, fieldEntry, Entry.lines, Entry.allLines, List.append_nil,
      fieldsLines_eq step fields, String.append_assoc]
  | .word text, level => by
    simp only [fieldLines, fieldEntry, Entry.lines, Entry.allLines, String.append_assoc]
  | .words [], level => by
    simp only [fieldLines, fieldEntry, Entry.lines, Entry.allLines, String.append_assoc]
  | .words (item :: rest), level => by
    simp only [fieldLines, fieldEntry, Entry.lines, allLines_words, String.append_assoc]
  | .nodes [], level => by
    simp only [fieldLines, fieldEntry, Entry.lines, Entry.allLines, String.append_assoc]
  | .nodes (item :: rest), level => by
    simp only [fieldLines, fieldEntry, Entry.lines, itemsLines_eq step (item :: rest),
      String.append_assoc]

/-- The lines of nodes are those of their trees. -/
theorem itemsLines_eq (step : String) : (items : List Outline) → (level : Nat) →
    itemsLines step level items = Entry.allLines step level (itemEntries items)
  | [], level => rfl
  | item :: rest, level => by
    rw [itemsLines, itemEntries, Entry.allLines_append, nodeLines_eq step item,
      itemsLines_eq step rest]

end

/-! ## Depth -/

/-- A line that has something on it and is not indented by itself. -/
def Upright (line : String) : Prop :=
  ∃ c cs, line.toList = c :: cs ∧ c ≠ ' '

/-- An indentation of so many blanks. -/
def blanks (width : Nat) : String :=
  String.ofList (List.replicate width ' ')

/-- How many blanks a line starts with. -/
def depth (line : String) : Nat :=
  (line.toList.takeWhile (· == ' ')).length

theorem toList_indent (width level : Nat) :
    (indent (blanks width) level).toList = List.replicate (level * width) ' ' := by
  induction level with
  | zero => rw [Nat.zero_mul]; rfl
  | succ level ih =>
    rw [indent] at ih ⊢
    rw [List.replicate_succ, String.join_cons, String.toList_append, ih, blanks,
      String.toList_ofList, List.replicate_append_replicate, Nat.succ_mul, Nat.add_comm]

theorem depth_indent (width level : Nat) {line : String} (h : Upright line) :
    depth (indent (blanks width) level ++ line) = level * width := by
  obtain ⟨c, cs, chars, visible⟩ := h
  rw [depth, String.toList_append, toList_indent, chars, List.takeWhile_append_of_pos,
    List.takeWhile_cons_of_neg]
  · rw [List.append_nil, List.length_replicate]
  · simpa using visible
  · intro a ha
    rw [List.eq_of_mem_replicate ha]
    rfl

namespace Entry

variable {width : Nat}

mutual

/-- No line of a tree is less deep than its first. -/
theorem depth_lines : (e : Entry) → {level : Nat} → e.All Upright →
    ∀ l ∈ e.lines (blanks width) level, level * width ≤ depth l
  | .mk line below, level, h => by
    intro l hl
    rw [lines] at hl
    rcases List.mem_cons.mp hl with rfl | hl
    · exact Nat.le_of_eq (depth_indent width level h.1).symm
    · have deeper := depth_allLines below h.2 l hl
      rw [Nat.succ_mul] at deeper
      omega

theorem depth_allLines : (es : List Entry) → {level : Nat} → AllIn Upright es →
    ∀ l ∈ allLines (blanks width) level es, level * width ≤ depth l
  | [], level, h => nofun
  | e :: rest, level, h => by
    intro l hl
    rw [allLines] at hl
    rcases List.mem_append.mp hl with hl | hl
    · exact depth_lines e h.1 l hl
    · exact depth_allLines rest h.2 l hl

end

/-- The lines that are deeper than this level end where the lines of the level go on. -/
theorem takeWhile_deeper (positive : 0 < width) {level : Nat} {below rest : List Entry}
    (h : AllIn Upright below) (hrest : AllIn Upright rest) :
    (allLines (blanks width) (level + 1) below ++ allLines (blanks width) level rest).takeWhile
      (fun l => level * width < depth l) = allLines (blanks width) (level + 1) below := by
  rw [List.takeWhile_append_of_pos]
  · cases rest with
    | nil => rw [allLines, List.takeWhile_nil, List.append_nil]
    | cons e rest =>
      cases e with
      | mk line below' =>
        rw [allLines, lines, List.cons_append, List.takeWhile_cons_of_neg, List.append_nil]
        simp [depth_indent width level hrest.1.1]
  · intro l hl
    have deeper := depth_allLines below h l hl
    rw [Nat.succ_mul] at deeper
    simpa using (by omega : level * width < depth l)

/-- Indented lines tell the trees that they are the lines of. -/
theorem allLines_inj (positive : 0 < width) : (es es' : List Entry) → {level : Nat} →
    AllIn Upright es → AllIn Upright es' →
    allLines (blanks width) level es = allLines (blanks width) level es' → es = es'
  | [], [], _, _, _, _ => rfl
  | [], .mk _ _ :: _, _, _, _, same => nomatch same
  | .mk _ _ :: _, [], _, _, _, same => nomatch same
  | .mk line below :: rest, .mk line' below' :: rest', level, h, h', same => by
    rw [allLines, allLines, lines, lines, List.cons_append, List.cons_append] at same
    obtain ⟨first, more⟩ := List.cons.inj same
    have inner := congrArg (List.takeWhile fun l => level * width < depth l) more
    rw [takeWhile_deeper positive h.1.2 h.2, takeWhile_deeper positive h'.1.2 h'.2] at inner
    rw [inner] at more
    rw [(String.append_right_inj _).mp first, allLines_inj positive below below' h.1.2 h'.1.2 inner,
      allLines_inj positive rest rest' h.2 h'.2 (List.append_cancel_left more)]

end Entry

/-! ## Lines of a text -/

/-- Whether a text, read from inside or outside of quotes, ends outside, with line ends only
inside. -/
def closes : Bool → List Char → Bool
  | inside, [] => !inside
  | inside, c :: cs =>
    if c = '"' then closes (!inside) cs else (inside || c != '\n') && closes inside cs

theorem closes_append {cs ds : List Char} {inside : Bool} (h : closes inside cs = true)
    (hd : closes false ds = true) : closes inside (cs ++ ds) = true := by
  induction cs generalizing inside with
  | nil =>
    cases inside with
    | false => exact hd
    | true => exact nomatch h
  | cons c cs ih =>
    rw [List.cons_append]
    unfold closes at h ⊢
    split at h
    · next quote =>
      rw [if_pos quote]
      exact ih h
    · next other =>
      rw [if_neg other]
      rw [Bool.and_eq_true] at h ⊢
      exact ⟨h.1, ih h.2⟩

theorem closes_of_plain {cs : List Char} (h : ∀ c ∈ cs, c ≠ '"' ∧ c ≠ '\n') :
    closes false cs = true := by
  induction cs with
  | nil => rfl
  | cons c cs ih =>
    obtain ⟨⟨quote, ending⟩, more⟩ := List.forall_mem_cons.mp h
    simp [closes, quote, ending, ih more]

theorem closes_of_quoted {cs : List Char} (h : '"' ∉ cs) : closes true (cs ++ ['"']) = true := by
  induction cs with
  | nil => rfl
  | cons c cs ih =>
    have quote : c ≠ '"' := fun e => h (e ▸ List.mem_cons_self)
    simp [closes, quote, ih fun there => h (List.mem_cons_of_mem c there)]

/-- A line of which a text that goes on behind the line end tells where it ends. -/
def Closed (line : String) : Prop :=
  closes false line.toList = true

theorem Closed.append {a b : String} (ha : Closed a) (hb : Closed b) : Closed (a ++ b) := by
  rw [Closed, String.toList_append]
  exact closes_append ha hb

theorem closed_enclosed {text : String} (h : '"' ∉ text.toList) : Closed (enclosed text) := by
  rw [Closed, enclosed, String.toList_append, String.toList_append]
  exact closes_of_quoted h

theorem closed_indent (width level : Nat) : Closed (indent (blanks width) level) := by
  rw [Closed, toList_indent]
  refine closes_of_plain fun c hc => ?_
  rw [List.eq_of_mem_replicate hc]
  decide

/-- The first line end outside of quotes ends the first line. -/
theorem closes_unique {cs cs' ds ds' : List Char} {inside : Bool} (h : closes inside cs = true)
    (h' : closes inside cs' = true) (same : cs ++ '\n' :: ds = cs' ++ '\n' :: ds') :
    cs = cs' ∧ ds = ds' := by
  -- if one of the two ended sooner, the other would run on over a line end outside of quotes
  induction cs generalizing cs' inside with
  | nil =>
    cases inside with
    | true => exact nomatch h
    | false =>
      cases cs' with
      | nil => exact ⟨rfl, (List.cons.inj same).2⟩
      | cons c' cs' =>
        obtain ⟨rfl, -⟩ := List.cons.inj same
        exact nomatch h'
  | cons c cs ih =>
    cases cs' with
    | nil =>
      cases inside with
      | true => exact nomatch h'
      | false =>
        obtain ⟨rfl, -⟩ := List.cons.inj same
        exact nomatch h
    | cons c' cs' =>
      obtain ⟨rfl, more⟩ := List.cons.inj same
      unfold closes at h h'
      split at h
      · next quote =>
        rw [if_pos quote] at h'
        obtain ⟨rfl, rest⟩ := ih h h' more
        exact ⟨rfl, rest⟩
      · next other =>
        rw [if_neg other, Bool.and_eq_true] at h'
        rw [Bool.and_eq_true] at h
        obtain ⟨rfl, rest⟩ := ih h.2 h'.2 more
        exact ⟨rfl, rest⟩

/-- The characters of lines, each with its end. -/
def ended (lines : List String) : List Char :=
  lines.flatMap fun line => line.toList ++ ['\n']

theorem ended_inj : {lines lines' : List String} → (∀ l ∈ lines, Closed l) →
    (∀ l ∈ lines', Closed l) → ended lines = ended lines' → lines = lines' := by
  intro lines lines' h h' same
  induction lines generalizing lines' with
  | nil =>
    cases lines' with
    | nil => rfl
    | cons line' rest' => simp [ended] at same
  | cons line rest ih =>
    cases lines' with
    | nil => simp [ended] at same
    | cons line' rest' =>
      rw [List.forall_mem_cons] at h h'
      rw [ended, ended, List.flatMap_cons, List.flatMap_cons, List.append_assoc,
        List.append_assoc] at same
      obtain ⟨first, more⟩ := closes_unique h.1 h'.1 same
      rw [String.toList_inj.mp first, ih h.2 h'.2 more]

theorem toList_joined {lines : List String} (some : lines ≠ []) :
    ("\n".intercalate lines).toList ++ ['\n'] = ended lines := by
  rw [String.toList_intercalate]
  induction lines with
  | nil => exact absurd rfl some
  | cons line rest ih =>
    cases rest with
    | nil => simp [ended]
    | cons line' rest =>
      have tail := ih (List.cons_ne_nil line' rest)
      rw [ended, List.flatMap_cons, ← ended, ← tail]
      simp [List.intercalate_cons_cons]

theorem joined_eq_empty {lines : List String} (shown : "" ∉ lines)
    (h : "\n".intercalate lines = "") : lines = [] := by
  cases lines with
  | nil => rfl
  | cons line rest =>
    have chars := toList_joined (List.cons_ne_nil line rest)
    rw [h, ended, List.flatMap_cons, List.append_assoc] at chars
    cases first : line.toList with
    | nil => exact absurd (String.toList_eq_nil_iff.mp first ▸ List.mem_cons_self) shown
    | cons c cs =>
      rw [first] at chars
      simp at chars

/-- A text tells its lines. -/
theorem joined_inj {lines lines' : List String} (h : ∀ l ∈ lines, Closed l)
    (h' : ∀ l ∈ lines', Closed l) (shown : "" ∉ lines) (shown' : "" ∉ lines')
    (same : "\n".intercalate lines = "\n".intercalate lines') : lines = lines' := by
  by_cases none : lines = []
  · rw [none] at same ⊢
    exact (joined_eq_empty shown' same.symm).symm
  · have some : lines' ≠ [] := by
      rintro rfl
      exact none (joined_eq_empty shown same)
    apply ended_inj h h'
    rw [← toList_joined none, ← toList_joined some, same]

/-! ## Texts of trees -/

/-- A line that can be told from the others of an outline. -/
structure Legible (line : String) : Prop where
  upright : Upright line
  closed : Closed line

namespace Entry

variable {width : Nat}

mutual

theorem All.mono {P Q : String → Prop} (weaker : ∀ line, P line → Q line) :
    {e : Entry} → e.All P → e.All Q
  | .mk _ _, h => ⟨weaker _ h.1, AllIn.mono weaker h.2⟩

theorem AllIn.mono {P Q : String → Prop} (weaker : ∀ line, P line → Q line) :
    {es : List Entry} → AllIn P es → AllIn Q es
  | [], _ => trivial
  | _ :: _, h => ⟨All.mono weaker h.1, AllIn.mono weaker h.2⟩

end

mutual

theorem legible_lines : (e : Entry) → {level : Nat} → e.All Legible →
    ∀ l ∈ e.lines (blanks width) level, Closed l ∧ l ≠ ""
  | .mk line below, level, h => by
    intro l hl
    rw [lines] at hl
    rcases List.mem_cons.mp hl with rfl | hl
    · refine ⟨(closed_indent width level).append h.1.closed, fun empty => ?_⟩
      obtain ⟨c, cs, chars, -⟩ := h.1.upright
      rw [← String.toList_inj, String.toList_append, chars] at empty
      exact nomatch (List.append_eq_nil_iff.mp empty).2
    · exact legible_allLines below h.2 l hl

theorem legible_allLines : (es : List Entry) → {level : Nat} → AllIn Legible es →
    ∀ l ∈ allLines (blanks width) level es, Closed l ∧ l ≠ ""
  | [], level, h => nofun
  | e :: rest, level, h => by
    intro l hl
    rw [allLines] at hl
    rcases List.mem_append.mp hl with hl | hl
    · exact legible_lines e h.1 l hl
    · exact legible_allLines rest h.2 l hl

end

/-- A text of legible lines tells the trees. -/
theorem text_inj (positive : 0 < width) {es es' : List Entry} (h : AllIn Legible es)
    (h' : AllIn Legible es')
    (same : "\n".intercalate (allLines (blanks width) 0 es)
      = "\n".intercalate (allLines (blanks width) 0 es')) : es = es' := by
  have lines : ∀ l ∈ allLines (blanks width) 0 es, Closed l ∧ l ≠ "" := legible_allLines es h
  have lines' : ∀ l ∈ allLines (blanks width) 0 es', Closed l ∧ l ≠ "" := legible_allLines es' h'
  apply allLines_inj positive es es' (h.mono fun _ => Legible.upright)
    (h'.mono fun _ => Legible.upright)
  exact joined_inj (fun l hl => (lines l hl).1) (fun l hl => (lines' l hl).1)
    (fun there => (lines _ there).2 rfl) (fun there => (lines' _ there).2 rfl) same

end Entry

end Outline

end ContractScript
