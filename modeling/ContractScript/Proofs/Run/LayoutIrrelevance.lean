/-
Layout does not matter.

Two sources with the same tokens differ in blanks, comments and line breaks only. They are
parsed into the same program but for places, with the same complaints, and run in the same
way: with the same value or the same fault, the same globals, and the same events in the
same order. Where an event shows a place it may show another one: a warning, a report on
tests, a report on a fault and one on a source that is not well formed. Apart from the
report on tests, which comes last, all that is printed is the same.
-/
import ContractScript.Proofs.Program.Layout
import ContractScript.Proofs.Run.Places
import ContractScript.Proofs.Run.Trail

set_option autoImplicit false

namespace ContractScript

open EvalM

/-! ## Sources with the same tokens -/

/-- What a token is, wherever it stands. The value of a literal is a function of this. -/
def Token.spelling (t : Token) : Token.Kind × String :=
  (t.kind, t.lexeme.text)

theorem TokenList.file_of_mem_scan {file : Option String} {source : String} {t : Token}
    (h : t ∈ (TokenList.scan file source).1.tokens) : t.place.file = file := by
  obtain ⟨⟨line, segment⟩, -, found⟩ := List.mem_filterMap.mp h
  unfold Segment.token? at found
  split at found
  · cases found
    rfl
  · cases found

/-- Tokens of one file that are spelled the same are alike. -/
theorem Token.forall₂_like_of_spelling {file : Option String} {ts ts' : List Token}
    (h : ∀ t ∈ ts, t.place.file = file) (h' : ∀ t ∈ ts', t.place.file = file)
    (spelled : ts.map Token.spelling = ts'.map Token.spelling) :
    List.Forall₂ (Token.Like Place.SameFile) ts ts' := by
  induction ts generalizing ts' with
  | nil =>
    rw [List.map_eq_nil_iff.mp spelled.symm]
    exact .nil
  | cons t ts ih =>
    cases ts' with
    | nil => cases spelled
    | cons t' ts' =>
      rw [List.map_cons, List.map_cons, List.cons.injEq] at spelled
      obtain ⟨kind, text⟩ := Prod.mk.inj spelled.1
      have place : t.place.SameFile t'.place :=
        (h t List.mem_cons_self).trans (h' t' List.mem_cons_self).symm
      exact .cons ⟨kind, text, place⟩ (ih (fun u hu => h u (List.mem_cons_of_mem _ hu))
        (fun u hu => h' u (List.mem_cons_of_mem _ hu)) spelled.2)

theorem TokenList.scan_like {file : Option String} {source source' : String}
    (spelled : (TokenList.scan file source).1.tokens.map Token.spelling
      = (TokenList.scan file source').1.tokens.map Token.spelling) :
    (TokenList.scan file source).1.Like Place.SameFile (TokenList.scan file source').1 :=
  ⟨Token.forall₂_like_of_spelling (fun _ => TokenList.file_of_mem_scan)
    (fun _ => TokenList.file_of_mem_scan) spelled, rfl⟩

/-! ## Events -/

/-- The same event, or one of those that show places: a warning, a report on a fault, on tests, or on
a source that is not well formed. -/
inductive Event.SameButPlaces (render : Renderer) (script script' : Report.Script) : Event → Event → Prop
  | same (e : Event) : SameButPlaces render script script' e e
  | warning (message : Option String) {p p' : Place} (place : p.SameFile p') :
      SameButPlaces render script script' (.effect .error (warningText message p))
        (.effect .error (warningText message p'))
  | fault {f f' : Fault} (same : f.Like Place.SameFile f') :
      SameButPlaces render script script' (.effect .error (Report.ofFault script f))
        (.effect .error (Report.ofFault script' f'))
  | tests {rs rs' : List TestResult} (same : List.Forall₂ (TestResult.Like Place.SameFile) rs rs') :
      SameButPlaces render script script' (.effect .output (Report.ofTests render rs))
        (.effect .output (Report.ofTests render rs'))
  | malformed {ds ds' : List Diagnostic}
      (same : List.Forall₂ (Diagnostic.Like Place.SameFile) ds ds') :
      SameButPlaces render script script' (.effect .error (Diagnostic.report ds))
        (.effect .error (Diagnostic.report ds'))

/-- The comparison of the runs of two scripts that differ in their layout. -/
def Terms.layout (render : Renderer) (script script' : Report.Script) : Terms :=
  .moved .tested nofun (Event.SameButPlaces render script script') .same
    (fun message _ _ place => .warning message place) [] []

/-! ## Runs -/

/-- Two scripts that ran in the same way, but for places. -/
structure RanAlike (render : Renderer) (script script' : Report.Script) (ran ran' : Outcome × Session) : Prop where
  outcome : Outcome.SameButPlaces script script' ran.1 ran'.1
  state : ran.2.machine.SameButPlaces .tested ran'.2.machine
  events : List.Forall₂ (Event.SameButPlaces render script script') ran.2.events ran'.2.events
  /-- All that is printed is the same; a report on tests comes behind it. -/
  prints : ∃ prints rs rs', List.Forall₂ (TestResult.Like Place.SameFile) rs rs' ∧
    outputs ran.2.events = prints ++ outputs (reportEvents render rs) ∧
    outputs ran'.2.events = prints ++ outputs (reportEvents render rs')

/-- Programs that are alike print the same, up to the report on their tests. -/
theorem runProgram_prints (setup : Setup) (host : Host) {script script' : Report.Script}
    {ss ss' : List Stmt} (program : List.Forall₂ (Stmt.Like Place.SameFile .tested) ss ss') :
    ∃ prints rs rs', List.Forall₂ (TestResult.Like Place.SameFile) rs rs' ∧
      outputs ((Session.new setup host).runProgram script ss).2.events.reverse
        = prints ++ outputs (reportEvents setup.render rs) ∧
      outputs ((Session.new setup host).runProgram script' ss').2.events.reverse
        = prints ++ outputs (reportEvents setup.render rs') := by
  have follows : Follows (.printing .tested nofun [] []) Session.references
      (Caught (.printing .tested nofun [] []) Value.Like)
      (attempt setup (Report.ofFault script) ss) (attempt setup (Report.ofFault script') ss') :=
    attempt_follows (show Mode.tested ≠ .erasing from nofun) (fun _ _ _ => rfl) program
  have ends := follows _ _ (Session.start_like setup host rfl rfl)
  have shown := (Session.new setup host).runProgram_attempt script ss
  have shown' := (Session.new setup host).runProgram_attempt script' ss'
  dsimp only [Session.new] at shown shown' ⊢
  generalize attempt setup (Report.ofFault script) ss (Session.start setup host) = r,
    attempt setup (Report.ofFault script') ss' (Session.start setup host) = r' at ends shown shown'
  cases ends with
  | given allowed => cases allowed
  | ok _ state _ =>
    obtain ⟨prints, written, written'⟩ := state.outputs
    refine ⟨prints, _, _, state.tests, ?_, ?_⟩
    · rw [shown.2, outputs_append, written]
      rfl
    · rw [shown'.2, outputs_append, written']
      rfl
  | error _ state _ =>
    -- the tests stay pending, and there is no report
    obtain ⟨prints, written, written'⟩ := state.outputs
    refine ⟨prints, [], [], .nil, ?_, ?_⟩
    · rw [shown.2, outputs_append, written, outputs_defectEvents]
      rfl
    · rw [shown'.2, outputs_append, written', outputs_defectEvents]
      rfl

theorem runProgram_alike (setup : Setup) (host : Host) {script script' : Report.Script}
    {ss ss' : List Stmt} (program : List.Forall₂ (Stmt.Like Place.SameFile .tested) ss ss')
    (file file' : Option String) :
    RanAlike setup.render script script'
      (((Session.new setup host).runProgram script ss).1,
        ⟨setup, ((Session.new setup host).runProgram script ss).2, file⟩)
      (((Session.new setup host).runProgram script' ss').1,
        ⟨setup, ((Session.new setup host).runProgram script' ss').2, file'⟩) := by
  have start : (Session.start setup host).Like (.layout setup.render script script') Session.references
      (Session.start setup host) := Session.start_like setup host rfl rfl
  obtain ⟨σ, -, outcome, state⟩ := Session.runProgram_like (T := .layout setup.render script script') nofun
    (fun _ _ same => .fault same) (fun _ _ _ same => .tests same) program start none none
  -- neither run leaves a module that is being imported
  have importing : ((Session.new setup host).runProgram script ss).2.importing
      = ((Session.new setup host).runProgram script' ss').2.importing :=
    congrArg Surroundings.importing (((Session.new setup host).runProgram_surroundings script ss).trans
      ((Session.new setup host).runProgram_surroundings script' ss').symm)
  refine ⟨outcome.sameButPlaces state, state.sameButPlaces importing, ?_,
    runProgram_prints setup host program⟩
  obtain ⟨es, es', events, events', same⟩ := state.events
  show List.Forall₂ _ (List.reverse _) (List.reverse _)
  rw [List.forall₂_reverse_iff]
  have whole : List.Forall₂ (Event.SameButPlaces setup.render script script') (es ++ []) (es' ++ []) := by
    rw [List.append_nil, List.append_nil]
    exact same
  exact events ▸ events' ▸ whole

/-- The first script of a session is run from the start, or refused if it is not well formed. -/
theorem Session.handle_new (setup : Setup) (host : Host) (source : String) (name : Option String) :
    (Session.new setup host).handle source name =
      if (Program.ofSource setup.settings.testMode name source).2.isEmpty then
        let ran := (Session.new setup host).runProgram ⟨source, name⟩
          (Program.ofSource setup.settings.testMode name source).1
        (ran.1, ⟨setup, ran.2, name⟩)
      else
        let diagnostics := (Program.ofSource setup.settings.testMode name source).2
        (.malformed diagnostics, ⟨setup, { Session.start setup host with
          events := [.effect .error (Diagnostic.report diagnostics)] }, name⟩) := by
  cases name <;> rfl

/-- Sources that are scanned without diagnostics into tokens of the same kinds and texts are parsed
into programs and diagnostics that are the same but for places, and as the first script of a session
they run alike. -/
theorem layout_irrelevant (setup : Setup) (host : Host) (name : Option String)
    (source source' : String) (scanned : (TokenList.scan name source).2 = [])
    (scanned' : (TokenList.scan name source').2 = [])
    (spelled : (TokenList.scan name source).1.tokens.map Token.spelling
      = (TokenList.scan name source').1.tokens.map Token.spelling) :
    (∀ keepTests,
      List.Forall₂ (Stmt.Like Place.SameFile .tested) (Program.ofSource keepTests name source).1
        (Program.ofSource keepTests name source').1 ∧
      List.Forall₂ (Diagnostic.Like Place.SameFile) (Program.ofSource keepTests name source).2
        (Program.ofSource keepTests name source').2) ∧
    RanAlike setup.render ⟨source, name⟩ ⟨source', name⟩ ((Session.new setup host).handle source name)
      ((Session.new setup host).handle source' name) := by
  have parsed : ∀ keepTests,
      List.Forall₂ (Stmt.Like Place.SameFile .tested) (Program.ofSource keepTests name source).1
        (Program.ofSource keepTests name source').1 ∧
      List.Forall₂ (Diagnostic.Like Place.SameFile) (Program.ofSource keepTests name source).2
        (Program.ofSource keepTests name source').2 := by
    intro keepTests
    unfold Program.ofSource
    simp only [scanned, scanned', List.nil_append]
    exact Program.parse_like (fun _ => rfl) (TokenList.scan_like spelled)
  refine ⟨parsed, ?_⟩
  obtain ⟨program, diagnostics⟩ := parsed setup.settings.testMode
  rw [Session.handle_new, Session.handle_new]
  generalize Program.ofSource setup.settings.testMode name source = read,
    Program.ofSource setup.settings.testMode name source' = read' at program diagnostics ⊢
  obtain ⟨ss, ds⟩ := read
  obtain ⟨ss', ds'⟩ := read'
  cases diagnostics with
  | nil => exact runProgram_alike setup host program name name
  | cons first rest =>
    -- nothing is run, and the report is all that can be seen
    have start := (Session.start_like (T := .layout setup.render ⟨source, name⟩ ⟨source', name⟩) setup host rfl
      rfl).sameButPlaces rfl
    have reported := List.Forall₂.cons first rest
    exact
      { outcome := .malformed reported
        state := ⟨start.store, rfl, .nil, rfl, rfl, .nil, rfl⟩
        events := .cons (.malformed reported) .nil
        prints := ⟨[], [], [], .nil, rfl, rfl⟩ }

/-- A source that fails on its second line. -/
def denseSource : String :=
  "var a = [1];\nprint a[2];"

/-- The same with other blanks, a comment and more lines. -/
def spacedSource : String :=
  "var a=[1]; // one item\n\n\nprint a [ 2 ] ;"

/-- The two sources have their tokens on different lines, and run alike. -/
theorem layout_irrelevant_spaced :
    ((TokenList.scan none denseSource).2 = [] ∧ (TokenList.scan none spacedSource).2 = [] ∧
      (TokenList.scan none denseSource).1.tokens.map Token.spelling
        = (TokenList.scan none spacedSource).1.tokens.map Token.spelling) ∧
    (TokenList.scan none denseSource).1.tokens.map (·.place.line)
      ≠ (TokenList.scan none spacedSource).1.tokens.map (·.place.line) ∧
    RanAlike Report.filled ⟨denseSource, none⟩ ⟨spacedSource, none⟩
      ((Session.new Setup.small Host.bare).handle denseSource none)
      ((Session.new Setup.small Host.bare).handle spacedSource none) := by
  have scanned : (TokenList.scan none denseSource).2 = [] := by decide +kernel
  have scanned' : (TokenList.scan none spacedSource).2 = [] := by decide +kernel
  have spelled : (TokenList.scan none denseSource).1.tokens.map Token.spelling
      = (TokenList.scan none spacedSource).1.tokens.map Token.spelling := by decide +kernel
  exact ⟨⟨scanned, scanned', spelled⟩, by decide +kernel,
    (layout_irrelevant Setup.small Host.bare none _ _ scanned scanned' spelled).2⟩

end ContractScript
