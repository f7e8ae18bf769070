/-
Where the token of a fault stands, and which line of a script its report marks.

A fault is located at a lexeme. Through evaluation it is followed back to the tree of a
program: what an evaluation is about is made of tokens, and so is what it asks for and
every function in the store. So the lexeme is a token of a source that the session has
read, which is one of its scripts, this one or an earlier one, or a module that the
loaders find, and its place is the name of that source and the line on which it starts.

A report shows lines of the script that is being run, whatever source of this name the
lexeme is from, and cuts them at every line end. So the line that is marked has the right
number. It is the line on which the lexeme starts if the lexeme was written in the script
itself, with no line ends but line feeds up to the end of its line.
-/
import ContractScript.Proofs.Program.Origin
import ContractScript.Proofs.Run.Blame
import ContractScript.Proofs.Run.Marking

set_option autoImplicit false

namespace ContractScript

open EvalM

/-! ## Sources that a session has read -/

namespace Report.Script

/-- The tokens of a source. -/
def tokens (script : Script) : List Token :=
  (TokenList.scan script.file script.source).1.tokens

/-- A source that a session has read by the end of some scripts: one of these scripts, or a module
that the loaders find. -/
inductive Read (setup : Setup) (scripts : List Script) : Script → Prop
  | script {script : Script} (member : script ∈ scripts) : Read setup scripts script
  | module {source : ModuleSource} (offered : setup.Offers source) :
      Read setup scripts ⟨source.source, some source.name⟩

end Report.Script

/-- A token of one of some sources. -/
def Token.OfAny (read : Report.Script → Prop) (t : Token) : Prop :=
  ∃ script, read script ∧ t ∈ script.tokens

theorem Token.OfAny.spelled (read : Report.Script → Prop) : Spelled (Token.OfAny read) := by
  rintro t ⟨script, -, member⟩
  exact TokenList.spells_of_mem member

theorem Report.Script.program_from {read : Report.Script → Prop} {script : Report.Script}
    (h : read script) (keepTests : Bool) :
    ∀ s ∈ (Program.ofSource keepTests script.file script.source).1, s.From (Token.OfAny read) :=
  (Stmt.allFrom_iff _).mp (Program.from_parse keepTests (Token.OfAny.spelled read)
    fun _ member => ⟨script, h, member⟩)

/-! ## Programs made of tokens -/

section Tokens

variable {T : Token → Prop}

theorem Expr.From.operands {e : Expr} (h : e.From T) : ∀ part ∈ e.operands, part.From T := by
  cases e with
  | literal | «variable» | qualified | map => exact fun _ member => absurd member List.not_mem_nil
  | group inner => exact List.forall_mem_singleton.mpr h
  | unary op place operand => exact List.forall_mem_singleton.mpr h.2
  | assign name value => exact List.forall_mem_singleton.mpr h.2
  | logical op place left right => exact List.forall_mem_singleton.mpr h.2.1
  | choice condition whenTrue whenFalse => exact List.forall_mem_singleton.mpr h.1
  | list items => exact (Expr.allFrom_iff items).mp h
  | call callee close arguments =>
    exact List.forall_mem_cons.mpr ⟨h.2.1, (Expr.allFrom_iff arguments).mp h.2.2⟩
  | binary op place left right =>
    exact List.forall_mem_cons.mpr ⟨h.2.1, List.forall_mem_singleton.mpr h.2.2⟩
  | index collection bracket key =>
    exact List.forall_mem_cons.mpr ⟨h.2.1, List.forall_mem_singleton.mpr h.2.2⟩
  | slice collection bracket first last =>
    exact List.forall_mem_cons.mpr ⟨h.2.1, List.forall_mem_cons.mpr
      ⟨h.2.2.1, List.forall_mem_singleton.mpr h.2.2.2⟩⟩

theorem Stmt.From.value? {s : Stmt} {e : Expr} (h : s.From T) (starts : s.value? = some e) :
    e.From T := by
  cases s with
  | expression | print =>
    cases starts
    exact h
  | branch =>
    cases starts
    exact h.1
  | var | yield => exact h.2 e starts
  | _ => cases starts

theorem Lexeme.NameFrom.from {l : Lexeme} (h : l.NameFrom T) : l.From T := by
  obtain ⟨t, member, -, same⟩ := h
  exact ⟨t, member, same⟩

theorem Expr.From.lexemes {e : Expr} (h : e.From T) : ∀ l ∈ e.lexemes, l.From T := by
  cases e with
  | «variable» name => exact List.forall_mem_singleton.mpr h.from
  | qualified spaces name => exact fun l member => (h l member).from
  | assign name value => exact List.forall_mem_singleton.mpr h.1.from
  | unary | binary | index | slice => exact List.forall_mem_singleton.mpr h.1
  | _ => exact fun _ member => absurd member List.not_mem_nil

/-- What a task is about is made of tokens. What is done behind a frame has no place of its own. -/
def Task.From (T : Token → Prop) : Task → Prop
  | .evaluate e => e.From T
  | .call place _ _ => (closeLexeme place).From T
  | .invoke _ _ => True
  | .execute s => s.From T
  | .load path place _ => (pathLexeme path place).From T

theorem Task.From.blamed {task : Task} {l : Lexeme} (h : task.From T)
    (blamed : task.Blamed (some l)) : l.From T := by
  cases task with
  | evaluate e =>
    obtain ⟨_, member, ⟨⟩⟩ := blamed
    exact Expr.From.lexemes h l member
  | call | load =>
    cases blamed
    exact h
  | invoke g arguments => cases blamed
  | execute s =>
    cases s with
    | contract kind place clauses =>
      cases kind with
      | assertion =>
        cases blamed
        exact h.1
      | check => exact blamed.elim
    | _ => exact blamed.elim

end Tokens

/-! ## Runs of programs made of tokens -/

section Runs

variable {setup : Setup} {T : Token → Prop}

/-- The modules of a setup are made of tokens. -/
def Setup.From (T : Token → Prop) (setup : Setup) : Prop :=
  ∀ source, setup.Offers source →
    ∀ s ∈ (Program.ofSource false (some source.name) source.source).1, s.From T

/-- The discipline of programs made of tokens: so is every function in the store. -/
def Discipline.written (modules : setup.From T) : Discipline setup where
  store s := ∀ id c, s.closure? id = some c → c.signature.From T ∧ Stmt.AllFrom T c.body
  host _ := True
  tests _ := True
  value _ := True
  scope _ := True
  code s := s.From T
  constant _ _ := trivial
  items _ _ _ _ _ _ := trivial
  entries _ _ _ _ _ _ := ⟨trivial, trivial⟩
  closure s id c hs _ found := ⟨trivial, (Stmt.allFrom_iff c.body).mp (hs id c found).2⟩
  bound _ _ _ _ _ _ _ := trivial
  owner _ _ _ _ _ _ _ := trivial
  space _ _ _ _ _ _ _ := trivial
  newList _ _ hs _ := ⟨hs, trivial⟩
  newMap _ _ hs _ := ⟨hs, trivial⟩
  newFunction s signature body scope hs _ hcode := by
    refine ⟨fun id c found => ?_, trivial⟩
    unfold Store.closure? Store.newFunction at found
    rw [Array.getElem?_push] at found
    split at found
    · cases found
      exact hcode
    · exact hs id c found
  newScope _ _ hs _ := ⟨hs, trivial⟩
  newRoot _ hs := ⟨hs, trivial⟩
  push _ _ _ hs _ _ := hs
  put _ _ _ _ hs _ _ _ := hs
  define _ _ _ _ hs _ _ := hs
  defineSpace _ _ _ _ hs _ _ := hs
  block body h := (Stmt.allFrom_iff body).mp h
  branchTrue _ _ _ h := h.2.1
  branchFalse _ _ _ h := h.2.2
  loop _ _ h := h.2
  test _ _ _ h := h.2
  record _ _ _ _ _ _ _ := trivial
  module source offered _ := modules source offered
  sameSite _ _ _ _ := trivial
  write _ _ _ _ _ _ _ := trivial

variable {modules : setup.From T} {c c' : Config} {link : Link}

/-- What is asked for is made of tokens if what asks for it is. -/
theorem Asks.from (spelled : Spelled T) (admitted : (Discipline.written modules).Admits c)
    (h : c.task.From T) (asks : Asks setup c link c') : c'.task.From T := by
  have next := (admitted.asks asks).2
  cases asks with
  -- statements are made of tokens because the discipline allows them
  | body | block | branch | round | test | declaration => exact next
  | operand reached => exact Expr.From.operands h _ reached.mem
  | mapKey reached => exact ((Expr.entriesFrom_iff _).mp h _ reached.mem).1
  | mapValue reached ran => exact ((Expr.entriesFrom_iff _).mp h _ reached.mem).2
  | right ran needed => exact h.2.2
  | @chosen depth condition whenTrue whenFalse a m m' ran =>
    show (if a.isTruthy then whenTrue else whenFalse).From T
    split
    · exact h.2.1
    · exact h.2.2
  | call ran passed => exact h.1
  | dispatch fits => exact trivial
  | before found made bound reached =>
    have signature := (admitted.1.1 _ _ found).1
    exact (Expr.allFrom_iff _).mp signature.before.conditions _ reached.mem
  | after found made bound opened ran noted reached =>
    have signature := (admitted.1.1 _ _ found).1
    exact (Expr.allFrom_iff _).mp signature.after.conditions _ reached.mem
  | value starts => exact Stmt.From.value? h starts
  | clause reached => exact (Expr.allFrom_iff _).mp h.2.conditions _ reached.mem
  | condition rounds => exact h.1
  | load => exact spelled.from_content h.1

/-- On its way up a fault is located where it was, or at the closing parenthesis of the call that it
leaves. -/
theorem Link.carry_from {below : Machine} {f : Fault} {l : Lexeme} (asks : Asks setup c link c')
    (h : c.task.From T) (inside : ∀ l, f.lexeme = some l → l.From T)
    (located : (link.carry below f).lexeme = some l) : l.From T := by
  cases link with
  | call frame =>
    cases asks
    -- a frame is put in place by a call, which knows its parenthesis
    have arrives : (f.lexeme <|> some (closeLexeme _)) = some l := located
    cases found : f.lexeme with
    | none =>
      rw [found] at arrives
      cases arrives
      exact h
    | some own =>
      rw [found] at arrives
      cases arrives
      exact inside l found
  | _ => exact inside l located

/-- A fault is located at one of the tokens that the programs are made of. -/
theorem Config.Fails.lexeme_from (spelled : Spelled T) : ∀ {depth : Nat} {c : Config} {f : Fault},
    c.depth = depth → (Discipline.written modules).Admits c → c.task.From T → c.Fails setup f →
      ∀ l, f.lexeme = some l → l.From T := by
  intro depth
  induction depth using Nat.strong_induction_on with
  | h depth ih =>
    intro c f levels admitted h failed l located
    -- either the fault starts here, at a lexeme of the task, or it comes from one level down
    cases failed.explained with
    | raised stack may =>
      rw [located] at may
      exact h.blamed may.1
    | overflow cause called at_ =>
      rw [called] at h
      rw [located] at at_
      cases at_
      exact h
    | @asked link c' f' asks caught below =>
      have fewer := asks.depth
      have inside := ih c'.depth (by omega) rfl (admitted.asks asks) (asks.from spelled admitted h) below
      cases failed.unique (asks.passes caught below)
      exact Link.carry_from asks h inside located

end Runs

/-- A fault that a session reports is located at a token of a source that the session has read. -/
theorem Session.fault_from {setup : Setup} {host : Host} {scripts : List (String × Option String)}
    {source : String} {name : Option String} {f : Fault} {report : String}
    (ended : (((Session.new setup host).after scripts).handle source name).1 = .fault f report) :
    ∃ l, f.lexeme = some l ∧ l.From (Token.OfAny
      (Report.Script.Read setup (Report.Script.inTurn none (scripts ++ [(source, name)])))) := by
  generalize every : Report.Script.inTurn none (scripts ++ [(source, name)]) = given
  have parts := (Report.Script.inTurn_append (Session.new setup host) scripts source name).symm.trans every
  have modules : setup.From (Token.OfAny (Report.Script.Read setup given)) := fun module offered =>
    Report.Script.program_from (Report.Script.Read.module offered) false
  -- one discipline for the whole session: what is said of functions in the store has to hold
  -- whichever script made them
  let D := Discipline.written modules
  have allows : ∀ script ∈ given, D.Allows script := fun script member _ =>
    Report.Script.program_from (Report.Script.Read.script member) setup.settings.testMode
  rw [← parts, List.forall_mem_append, List.forall_mem_singleton] at allows
  have start : D.Holds (Session.start setup host) := by
    refine ⟨fun _ _ found => ?_, trivial, trivial, trivial⟩
    cases found
  have holds := D.holds_after trivial scripts rfl start allows.1
  have same : ((Session.new setup host).after scripts).setup = setup :=
    (Session.atRest_new setup host |>.after scripts).2
  obtain ⟨-, s, m, begins, failed⟩ := Session.handle_fails ended
  rw [same] at failed
  obtain ⟨-, code, admitted⟩ := D.admits_begins same holds allows.2 begins
  have task : (Config.top setup s m).task.From (Token.OfAny (Report.Script.Read setup given)) := by
    cases s <;> exact code
  obtain ⟨l, located⟩ := Option.ne_none_iff_exists'.mp (Session.handle_located ended)
  exact ⟨l, located, failed.lexeme_from (Token.OfAny.spelled _) rfl admitted task l located⟩

/-! ## Where a token stands -/

/-- A token stands in a source between what is in front of it and what starts with it: a piece of the
source is read as the token, and the place of the token is the name of the source and the line on
which the piece starts. -/
structure Report.Script.Has (script : Report.Script) (t : Token) (before behind : List Char) :
    Prop where
  piece : ∃ ahead s after, Segmentation script.source.toList (ahead ++ s :: after) ∧
    s.spelling? = some (t.kind, t.lexeme.text) ∧
    before = ahead.flatMap Segment.chars ∧ behind = (s :: after).flatMap Segment.chars
  place : t.place = ⟨script.file, 1 + before.count '\n'⟩

namespace Report.Script

variable {script : Script} {t : Token} {before behind : List Char}

/-- The tokens of a source are those that stand somewhere in it. -/
theorem mem_tokens_iff : t ∈ script.tokens ↔ ∃ before behind, script.Has t before behind := by
  have lines := (TokenList.scan_lines script.file script.source).1
  constructor
  · intro member
    obtain ⟨k, found⟩ := List.mem_iff_getElem?.mp member
    obtain ⟨ahead, s, after, cut, -, spelled, place⟩ := (lines k t).mp found
    exact ⟨_, _, ⟨ahead, s, after, cut, spelled, rfl, rfl⟩, place⟩
  · rintro ⟨_, _, ⟨ahead, s, after, cut, spelled, rfl, rfl⟩, place⟩
    exact List.mem_of_getElem? ((lines _ t).mpr ⟨ahead, s, after, cut, rfl, spelled, place⟩)

theorem Has.whole (h : script.Has t before behind) : script.source.toList = before ++ behind := by
  obtain ⟨ahead, s, after, cut, -, rfl, rfl⟩ := h.piece
  rw [← cut.whole, List.flatMap_append]

theorem Has.shown (h : script.Has t before behind) : behind ≠ [] := by
  obtain ⟨ahead, s, after, cut, -, -, rfl⟩ := h.piece
  obtain ⟨c, rest, start⟩ := (cut.fits ahead s after rfl).exists_cons
  rw [List.flatMap_cons, start]
  exact List.cons_ne_nil c _

theorem Has.starts (h : script.Has t before behind) : t.lexeme.text.toList <+: behind := by
  obtain ⟨ahead, s, after, -, spelled, -, rfl⟩ := h.piece
  have text : t.lexeme.text.toList = s.chars := by
    unfold Segment.spelling? at spelled
    split at spelled
    · have same : String.ofList s.chars = t.lexeme.text := congrArg Prod.snd (Option.some.inj spelled)
      rw [← same, String.toList_ofList]
    · cases spelled
  rw [List.flatMap_cons, text]
  exact List.prefix_append _ _

end Report.Script

/-! ## The line that is marked -/

/-- The lines of a script that its report on a fault shows. -/
def Report.excerpt (script : Script) (l : Lexeme) : List String :=
  if l.place.file == script.file then context script.source l.place.line else []

/-- A report on a fault shows these lines between the place of the fault and the calls. -/
theorem Report.ofFault_eq (script : Script) {f : Fault} {l : Lexeme} (located : f.lexeme = some l) :
    ofFault script f = "\n".intercalate (("RuntimeError: " ++ f.cause.message) ::
      ("[" ++ l.place.text ++ "]") :: (excerpt script l ++ callStack f.stack)) := by
  unfold ofFault
  rw [located]
  rfl

namespace Report.Script.Has

variable {origin script : Report.Script} {t : Token} {before behind : List Char}

/-- What is shown is of a source with the name of the token's, and the marked line is the one with
the number of the token's line. -/
theorem marks (h : origin.Has t before behind) (shown : excerpt script t.lexeme ≠ []) :
    origin.file = script.file ∧ ∃ text, (Text.lines script.source)[before.count '\n']? = some text ∧
      Marks (excerpt script t.lexeme) (1 + before.count '\n') text := by
  have place : t.lexeme.place = _ := h.place
  unfold excerpt at shown ⊢
  rw [place] at shown ⊢
  dsimp only at shown ⊢
  split at shown
  · next same =>
    rw [if_pos same]
    obtain ⟨pos, text, found⟩ := exists_line shown
    obtain ⟨width, marked⟩ := marked_context pos found
    rw [Nat.add_sub_cancel_left] at found
    exact ⟨eq_of_beq same, text, found, width, marked⟩
  · exact absurd rfl shown

/-- The marked line is the line of the token, if it stands in the script itself and no other line
ends stand in front of the end of its line. -/
theorem marks_own (h : script.Has t before behind)
    (only : Text.OnlyFeeds (before ++ behind.takeWhile (· != '\n'))) :
    Marks (excerpt script t.lexeme) (1 + before.count '\n') (Text.lineAround before behind) := by
  have place : t.lexeme.place = _ := h.place
  have found := Text.lines_around h.shown only h.whole
  have number : 1 + before.count '\n' - 1 = before.count '\n' := Nat.add_sub_cancel_left 1 _
  rw [← number] at found
  unfold excerpt
  rw [place, if_pos (beq_self_eq_true script.file)]
  exact marked_context (Nat.le_add_right 1 _) found

end Report.Script.Has

/-- Whatever scripts a session has run, the report on a runtime fault of the next one is located at
the lexeme of a token of a source that the session has read: one of the scripts or a module. Wherever
such a token stands, this holds of the report: if lines are shown, they are of the script that is run
and has the name of that source, and the one that is marked has the number of the line on which the
token starts, counted by line feeds in the source that it stands in. It is that line if that source is
the script itself and no line ends but line feeds stand up to the end of that line. -/
theorem Session.report_marks (setup : Setup) (host : Host) (scripts : List (String × Option String))
    (source : String) (name : Option String) {f : Fault} {report : String}
    (ended : (((Session.new setup host).after scripts).handle source name).1 = .fault f report) :
    let script : Report.Script := ⟨source, name <|> ((Session.new setup host).after scripts).file⟩
    ∃ l, f.lexeme = some l ∧
      report = "\n".intercalate (("RuntimeError: " ++ f.cause.message) ::
        ("[" ++ l.place.text ++ "]") :: (Report.excerpt script l ++ Report.callStack f.stack)) ∧
      (∃ t origin before behind, t.lexeme = l ∧
        Report.Script.Read setup (Report.Script.inTurn none (scripts ++ [(source, name)])) origin ∧
        origin.Has t before behind) ∧
      ∀ t origin before behind, t.lexeme = l → origin.Has t before behind →
        (Report.excerpt script l ≠ [] → origin.file = script.file ∧
          ∃ text, (Text.lines source)[before.count '\n']? = some text ∧
            Report.Marks (Report.excerpt script l) (1 + before.count '\n') text) ∧
        (origin = script → Text.OnlyFeeds (before ++ behind.takeWhile (· != '\n')) →
          Report.Marks (Report.excerpt script l) (1 + before.count '\n')
            (Text.lineAround before behind)) := by
  intro script
  obtain ⟨l, located, t, ⟨origin, read, member⟩, rfl⟩ := Session.fault_from ended
  obtain ⟨before, behind, has⟩ := Report.Script.mem_tokens_iff.mp member
  refine ⟨_, located, ?_, ⟨t, origin, before, behind, rfl, read, has⟩, ?_⟩
  · obtain ⟨told, -⟩ := Session.handle_fails ended
    exact told.trans (Report.ofFault_eq _ located)
  · intro t' origin' before' behind' same stands
    rw [← same]
    refine ⟨stands.marks, ?_⟩
    rintro rfl only
    exact stands.marks_own only

/-- A script with a line separator inside a text, and a false assertion on the line behind it. -/
def Report.separated : String :=
  "var s = \"a\u2028b\";\nassertion: false;"

/-- The report on the assertion marks the rest of the text as line 2, not the line of the
assertion. -/
theorem Session.report_marks_separated :
    ∃ f report t before behind,
      ((Session.new (Session.standard {}) Host.bare).handle Report.separated none).1
        = .fault f report ∧
      f.lexeme = some t.lexeme ∧ Report.Script.Has ⟨Report.separated, none⟩ t before behind ∧
      Report.Marks (Report.excerpt ⟨Report.separated, none⟩ t.lexeme) 2 "b\";" ∧
      Text.lineAround before behind ≠ "b\";" := by
  have read : Program.ofSource false none Report.separated
      = ([.var ⟨"s", ⟨none, 1⟩⟩ (some (.literal (.text "a\u2028b"))),
          .contract .assertion ⟨none, 2⟩ ⟨[.literal (.bool false)], none⟩], []) := by
    cbv
  have fails : ∃ f report, f.lexeme = some ⟨"assertion", ⟨none, 2⟩⟩ ∧
      ((Session.new (Session.standard {}) Host.bare).handle Report.separated none).1
        = .fault f report := by
    have script : Program.ofSource (Session.new (Session.standard {}) Host.bare).setup.settings.testMode
        (none <|> (Session.new (Session.standard {}) Host.bare).file) Report.separated = _ := read
    unfold Session.handle
    dsimp only
    rw [script]
    exact ⟨⟨_, some ⟨"assertion", ⟨none, 2⟩⟩, none⟩, _, rfl, rfl⟩
  obtain ⟨f, report, located, ended⟩ := fails
  obtain ⟨l, found, -, ⟨⟨kind, _⟩, origin, before, behind, rfl, known, has⟩, general⟩ :=
    Session.report_marks (Session.standard {}) Host.bare [] Report.separated none ended
  cases located.symm.trans found
  obtain ⟨file, line⟩ := Place.mk.inj has.place
  have only : origin = ⟨Report.separated, none⟩ := by
    cases known with
    | script member => exact List.mem_singleton.mp member
    | module offered => cases file
  subst only
  have count : before.count '\n' = 1 := by omega
  have shown : Report.excerpt ⟨Report.separated, none⟩ ⟨"assertion", ⟨none, 2⟩⟩ ≠ [] := by decide +kernel
  have second : (Text.lines Report.separated)[1]? = some "b\";" := rfl
  obtain ⟨marked, -⟩ := general _ _ before behind rfl has
  obtain ⟨-, text, second', marks⟩ := marked shown
  rw [count] at second' marks
  cases second.symm.trans second'
  refine ⟨f, report, _, before, behind, ended, located, has, marks, fun same => ?_⟩
  -- the line of the assertion has its first letter
  obtain ⟨rest, starts⟩ : "assertion".toList <+: behind := has.starts
  have letter : 'a' ∈ (Text.lineAround before behind).toList := by
    rw [Text.lineAround, String.toList_ofList, ← starts]
    exact List.mem_append_right _ List.mem_cons_self
  rw [same] at letter
  exact absurd letter (by decide)

end ContractScript
