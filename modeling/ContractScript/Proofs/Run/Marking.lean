/-
The line that a report marks.

A report on a fault shows some lines of the script that is being run and marks one of
them, by number. Lines are numbered by line feeds where a source is read into tokens, but
the lines that are shown end wherever any line end stands. So the marked line is the one
that the number means only as far as a source has no line ends but line feeds.
-/
import ContractScript.Report

set_option autoImplicit false

namespace ContractScript

/-! ## Lines around a position -/

namespace Text

/-- The line around a position: what stands between the line feeds on both sides. -/
def lineAround (before behind : List Char) : String :=
  String.ofList ((before.reverse.takeWhile (· != '\n')).reverse ++ behind.takeWhile (· != '\n'))

/-- The only line ends are line feeds. -/
def OnlyFeeds (cs : List Char) : Prop :=
  ∀ c ∈ cs, isLineEnd c = true → c = '\n'

theorem cutLines_plain {c : Char} {rest current : List Char} (plain : isLineEnd c = false) :
    cutLines (c :: rest) current = cutLines rest (c :: current) := by
  have other : c ≠ '\r' := by
    rintro rfl
    exact absurd plain (by decide)
  cases rest with
  | nil => simp [cutLines, plain]
  | cons d rest => simp [cutLines, plain, other]

theorem cutLines_feed (rest current : List Char) :
    cutLines ('\n' :: rest) current = String.ofList current.reverse :: cutLines rest [] := by
  cases rest with
  | nil => simp [cutLines, show isLineEnd '\n' = true by decide]
  | cons d rest => simp [cutLines, show isLineEnd '\n' = true by decide]

/-- The first line ends at the first line feed, if no other line end comes before it. -/
theorem cutLines_head {behind current : List Char} (shown : current ≠ [] ∨ behind ≠ [])
    (only : OnlyFeeds (behind.takeWhile (· != '\n'))) :
    (cutLines behind current)[0]?
      = some (String.ofList (current.reverse ++ behind.takeWhile (· != '\n'))) := by
  induction behind generalizing current with
  | nil =>
    cases current with
    | nil => exact absurd rfl (shown.resolve_right fun h => h rfl)
    | cons c current => simp [cutLines]
  | cons c rest ih =>
    by_cases feed : c = '\n'
    · subst feed
      rw [cutLines_feed]
      simp
    · have inLine : (c :: rest).takeWhile (· != '\n') = c :: rest.takeWhile (· != '\n') :=
        List.takeWhile_cons_of_pos (by simpa using feed)
      rw [inLine] at only ⊢
      have plain : isLineEnd c = false := by
        apply Bool.eq_false_iff.mpr
        intro ends
        exact feed (only c List.mem_cons_self ends)
      rw [cutLines_plain plain,
        ih (.inl (List.cons_ne_nil c current)) fun d hd => only d (List.mem_cons_of_mem c hd)]
      simp

/-- Up to the end of a line without other line ends, the lines that are shown are the lines that
are numbered. -/
theorem cutLines_around {before behind current : List Char} (shown : behind ≠ [])
    (only : OnlyFeeds (before ++ behind.takeWhile (· != '\n'))) (inLine : '\n' ∉ current) :
    (cutLines (before ++ behind) current)[before.count '\n']?
      = some (lineAround (current.reverse ++ before) behind) := by
  induction before generalizing current with
  | nil =>
    have whole : (current ++ []).takeWhile (· != '\n') = current ++ [].takeWhile (· != '\n') := by
      refine List.takeWhile_append_of_pos fun c hc => ?_
      have other : c ≠ '\n' := fun same => inLine (same ▸ hc)
      simpa using other
    rw [List.append_nil, List.takeWhile_nil, List.append_nil] at whole
    rw [List.nil_append, List.count_nil, cutLines_head (.inr shown) only]
    simp [lineAround, whole]
  | cons c before ih =>
    have rest : OnlyFeeds (before ++ behind.takeWhile (· != '\n')) := fun d hd =>
      only d (List.mem_cons_of_mem c hd)
    rw [List.cons_append]
    by_cases feed : c = '\n'
    · subst feed
      rw [cutLines_feed, List.count_cons_self, List.getElem?_cons_succ, ih rest List.not_mem_nil]
      -- what stands before the line feed is of no account
      have cut : (before.reverse ++ '\n' :: current).takeWhile (· != '\n')
          = before.reverse.takeWhile (· != '\n') := by
        rw [List.takeWhile_append]
        split
        · next whole =>
          rw [List.takeWhile_cons_of_neg (by simp), List.append_nil]
          exact ((List.takeWhile_prefix _).eq_of_length whole).symm
        · rfl
      simp [lineAround, cut]
    · have plain : isLineEnd c = false := by
        apply Bool.eq_false_iff.mpr
        intro ends
        exact feed (only c List.mem_cons_self ends)
      have inLine' : '\n' ∉ c :: current := by
        simpa using ⟨Ne.symm feed, inLine⟩
      rw [cutLines_plain plain, List.count_cons_of_ne feed, ih rest inLine']
      simp

theorem lines_around {before behind : List Char} (shown : behind ≠ [])
    (only : OnlyFeeds (before ++ behind.takeWhile (· != '\n'))) {text : String}
    (whole : text.toList = before ++ behind) :
    (lines text)[before.count '\n']? = some (lineAround before behind) := by
  rw [lines, whole]
  exact cutLines_around shown only List.not_mem_nil

end Text

/-! ## Marked lines -/

namespace Report

/-- Whether a line of a report is marked. -/
def isMarked (line : String) : Bool :=
  line.toList.head? == some '>'

/-- Among some lines exactly one is marked, and it has this number and text. -/
def Marks (lines : List String) (number : Nat) (text : String) : Prop :=
  ∃ width, lines.filter isMarked = [contextLine number width number text]

theorem isMarked_contextLine (marked width number : Nat) (text : String) :
    isMarked (contextLine marked width number text) = (number == marked) := by
  unfold isMarked contextLine
  cases number == marked <;> simp

theorem filter_zipIdx {α : Type} (l : List α) {first n : Nat} (h : first ≤ n) :
    (l.zipIdx first).filter (fun p => p.2 == n) = (l[n - first]?).toList.map fun x => (x, n) := by
  induction l generalizing first with
  | nil => simp
  | cons x rest ih =>
    rw [List.zipIdx_cons]
    by_cases here : first = n
    · subst here
      have none : (rest.zipIdx (first + 1)).filter (fun p => p.2 == first) = [] := by
        rw [List.filter_eq_nil_iff]
        intro p hp
        have later := List.le_snd_of_mem_zipIdx hp
        simp
        omega
      simp [none]
    · rw [List.filter_cons_of_neg (by simpa using here), ih (by omega)]
      obtain ⟨k, hk⟩ : ∃ k, n - first = k + 1 := ⟨n - first - 1, by omega⟩
      rw [show n - (first + 1) = k by omega, hk, List.getElem?_cons_succ]

/-- A line is shown only if there is one of that number. -/
theorem exists_line {source : String} {line : Nat} (shown : context source line ≠ []) :
    1 ≤ line ∧ ∃ text, (Text.lines source)[line - 1]? = some text := by
  unfold context at shown
  dsimp only at shown
  split at shown
  · exact absurd rfl shown
  · next inside =>
    simp only [Bool.or_eq_true, decide_eq_true_eq, not_or, Nat.not_lt] at inside
    exact ⟨inside.1, _, List.getElem?_eq_getElem (by omega)⟩

/-- The marked line is the one of that number. -/
theorem marked_context {source : String} {line : Nat} {text : String} (pos : 1 ≤ line)
    (found : (Text.lines source)[line - 1]? = some text) :
    Marks (context source line) line text := by
  have inside : line - 1 < (Text.lines source).length := (List.getElem?_eq_some_iff.mp found).1
  unfold context
  dsimp only
  rw [if_neg (by simp; omega)]
  generalize widest : (toString (min (Text.lines source).length (line + radius))).length = width
  refine ⟨width, ?_⟩
  have first : max 1 (line - radius) ≤ line := by omega
  have last : line ≤ min (Text.lines source).length (line + radius) := by omega
  have start : 1 ≤ max 1 (line - radius) := by omega
  generalize max 1 (line - radius) = low at first start
  generalize min (Text.lines source).length (line + radius) = high at last
  have marks : (isMarked ∘ fun p : String × Nat => contextLine line width p.2 p.1)
      = fun p => p.2 == line := by
    funext p
    exact isMarked_contextLine line width p.2 p.1
  rw [List.filter_map, marks, filter_zipIdx _ first, List.getElem?_take_of_lt (by omega),
    List.getElem?_drop, show low - 1 + (line - low) = line - 1 by omega, found]
  rfl

end Report

end ContractScript
