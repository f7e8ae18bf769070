/-
How the command line ends with a script.

Three things come one after another: the script is read, then parsed, and then shown or run. Each of
them has an end of its own, and the circumstances of the ends exclude each other, so that each ending
is described exactly. A run that is not over has none. An ending that is no exit code is a surprise. The caller meets one if the path
or the bytes of the script are no text, if the outline of the script is too deep, and if the user
interrupts an input. The last of these concerns what is typed: nothing is ever put back, so an input
that is interrupted was so among what there was to type in the beginning.
-/
import ContractScript.Cli
import ContractScript.Settings.Document
import ContractScript.Proofs.Run.Defects
import ContractScript.Proofs.Run.Handover
import ContractScript.Proofs.Run.Rereading

set_option autoImplicit false

namespace ContractScript

open EvalM Course

/-! ## What is typed is used up -/

/-- What there is to type. -/
def Machine.typed (m : Machine) : List Typed := m.host.typed

instance : Storeless Machine.typed := ⟨fun _ _ => rfl, fun _ _ => rfl⟩

instance : Detached Machine.typed := ⟨fun _ _ _ _ _ => rfl⟩

namespace EvalM

variable {α β : Type}

/-- However a step ends, it has put nothing back of what was typed. -/
def UsesUp (step : EvalM α) : Prop :=
  ∀ m, (finalState step m).typed <:+ m.typed

theorem Keeps.usesUp {step : EvalM α} (kept : Keeps Machine.typed step) : UsesUp step :=
  fun m => (kept m).symm ▸ List.suffix_rfl

theorem UsesUp.bind {step : EvalM α} {f : α → EvalM β} (first : UsesUp step)
    (then_ : ∀ a, UsesUp (f a)) : UsesUp (step >>= f) := by
  intro m
  have begun := first m
  unfold finalState at begun
  rw [finalState_bind]
  cases run : step m with
  | ok a m₁ =>
    rw [run] at begun
    exact (then_ a m₁).trans begun
  | error e m₁ =>
    rw [run] at begun
    exact begun

theorem usesUp_readLine (depth : Nat) (prompt : Value) : UsesUp (Native.readLine depth prompt) := by
  refine (Keeps.shown depth prompt).usesUp.bind fun text => (Keeps.note _).usesUp.bind fun _ => ?_
  rintro ⟨store, scope, frames, directory, importing, tests, events, host⟩
  obtain ⟨files, current, home, typed, clock, random, network⟩ := host
  cases typed with
  | nil => exact List.suffix_rfl
  | cons typed rest => cases typed <;> exact List.suffix_cons _ rest

theorem Keeps.fetch_typed (setup : Setup) (url : String) :
    Keeps Machine.typed (Native.fetch setup url) := by
  refine .getThen fun m => Keeps.setThen rfl ?_
  split
  · exact .pure _
  · exact .throw _
  · exact .throw _
  · exact .pure _

theorem Keeps.writeFile_typed (setup : Setup) (path text : String) :
    Keeps Machine.typed (Native.writeFile setup path text) := by
  intro m
  rw [finalState, writeFile_eq]
  cases written : m.host.write setup.settings.directory path text with
  | ok host =>
    obtain ⟨found, -, rfl⟩ := Host.write_eq_ok.mp written
    rfl
  | error problem => cases problem <;> rfl

/-- The call of a built-in function puts nothing back. -/
theorem usesUp_native (setup : Setup) (depth : Nat) (g : Native) (arguments : List Value) :
    UsesUp (g.call setup depth arguments) := by
  by_cases input : ∃ prompt, g = .input ∧ arguments = [prompt]
  · obtain ⟨prompt, rfl, rfl⟩ := input
    exact usesUp_readLine depth prompt
  -- all other functions leave what is typed alone, in the order in which they are defined
  · refine Keeps.usesUp ?_
    unfold Native.call
    split
    · exact absurd ⟨_, rfl, rfl⟩ input
    · exact .length depth _
    · exact .modifyGet fun _ => rfl
    · exact .modifyGet fun _ => rfl
    · exact .bind (.expectMap depth _) fun _ => .bind .get fun _ => .newList _
    · exact .bind (.expectMap depth _) fun _ => .bind .get fun _ => .newList _
    · exact .bind (.expectMap depth _) fun _ => .bind (.keyOf depth _) fun _ =>
        .bind (.modify fun _ => rfl) fun _ => .pure _
    · split
      · exact .bind (.modify fun _ => rfl) fun _ => .pure _
      · exact .reject depth _ _
    · exact .bind (.expectText depth _ _) fun _ => .readFile setup _
    · exact .bind (.expectText depth _ _) fun _ => .bind (.expectText depth _ _) fun _ =>
        .writeFile_typed setup _ _
    · refine .bind (.expectText depth _ _) fun url => ?_
      split
      · exact .fetch_typed setup url
      · exact .reject depth _ _
    · exact .pure _

end EvalM

/-- Questions one after another put nothing back, if none of them does. -/
theorem Handed.suffix {setup : Setup} {depth : Nat} {s s' : List Typed} {asked : List Question}
    (each : ∀ q : Question, (q.ended setup depth).typed <:+ q.machine.typed)
    (handed : Handed Machine.typed setup depth s asked s') :
    s' <:+ s ∧ ∀ q ∈ asked, q.machine.typed <:+ s := by
  induction handed with
  | done => exact ⟨List.suffix_rfl, fun _ none => absurd none List.not_mem_nil⟩
  | @next q rest s s' starts _ ih =>
    obtain ⟨ends, others⟩ := ih
    have first : (q.ended setup depth).typed <:+ s := starts ▸ each q
    refine ⟨ends.trans first, List.forall_mem_cons.mpr ⟨starts ▸ List.suffix_rfl, fun r later => ?_⟩⟩
    exact (others r later).trans first

/-- What an evaluation hands on of what is typed. A call of a built-in function asks for nothing. -/
theorem Task.handed_typed {task : Task} (other : ∀ g arguments, task ≠ .invoke (.native g) arguments)
    (setup : Setup) (depth : Nat) (m : Machine) :
    Handed Machine.typed setup depth m.typed (task.course setup depth m)
      (Config.finalState setup ⟨depth + 1, task, m⟩).typed :=
  Task.handed Machine.typed setup depth (fun g arguments same => absurd same (other g arguments))
    (fun _ _ _ _ _ _ => rfl) m

theorem Config.usesUp (setup : Setup) (c : Config) : (c.finalState setup).typed <:+ c.machine.typed := by
  obtain ⟨depth, task, m⟩ := c
  induction depth generalizing task m with
  | zero => cases task <;> exact List.suffix_rfl
  | succ depth ih =>
    by_cases native : ∃ g arguments, task = .invoke (.native g) arguments
    · obtain ⟨g, arguments, rfl⟩ := native
      exact usesUp_native setup depth g arguments m
    · have other : ∀ g arguments, task ≠ .invoke (.native g) arguments :=
        fun g arguments same => native ⟨g, arguments, same⟩
      exact ((Task.handed_typed other setup depth m).suffix fun q => ih q.task q.machine).1

theorem Asks.typed {setup : Setup} {c c' : Config} {link : Link} (asks : Asks setup c link c') :
    c'.machine.typed <:+ c.machine.typed := by
  obtain ⟨depth, task, m⟩ := c
  have asked := Config.mem_asked.mpr asks
  unfold Config.asked at asked
  cases depth with
  | zero => exact absurd asked List.not_mem_nil
  | succ depth =>
    obtain ⟨q, member, same⟩ := List.mem_map.mp asked
    cases same
    have other : ∀ g arguments, task ≠ .invoke (.native g) arguments := by
      rintro g arguments rfl
      exact absurd member List.not_mem_nil
    exact ((Task.handed_typed other setup depth m).suffix fun q =>
      Config.usesUp setup ⟨depth, q.task, q.machine⟩).2 q member

theorem Trail.typed {setup : Setup} {c c' : Config} {links : List Link}
    (trail : Trail setup c links c') : c'.machine.typed <:+ c.machine.typed := by
  induction trail with
  | here => exact List.suffix_rfl
  | step asks _ ih => exact ih.trans asks.typed

theorem usesUp_runTop (setup : Setup) (s : Stmt) : UsesUp (runTop setup s) := fun m =>
  (@view_runTop _ Machine.typed _ setup s m) ▸ Config.usesUp setup (.top setup s m)

/-- What there is to type when a program comes to a statement was there before. -/
theorem InTurn.typed {setup : Setup} {goOn : Value → Prop} {program : Program} {s : Stmt}
    {m m' : Machine} (reached : InTurn (runTop setup) goOn program m s m') : m'.typed <:+ m.typed := by
  induction reached with
  | first => exact List.suffix_rfl
  | @later s _ rest v m m₁ _ ran _ _ ih =>
    have first := usesUp_runTop setup s m
    unfold finalState at first
    rw [ran] at first
    exact ih.trans first

/-- A program is interrupted only if an interrupt is typed. -/
theorem Program.interrupt_typed {setup : Setup} {program : Program} {last : Value} {m : Machine}
    (interrupted : Breaks (runAll setup last program) m .interrupted) : .interrupt ∈ m.typed := by
  obtain ⟨s, m', reached, broken⟩ := (breaks_runAll Defect.noConfusion).mp interrupted
  obtain ⟨links, p, trail, stumbles⟩ := (Config.breaks_iff_trail Defect.noConfusion).mp broken
  have there : .interrupt ∈ p.machine.typed := by
    cases stumbles with
    | @input depth prompt text m rest _ typed =>
      show .interrupt ∈ m.host.typed
      rw [typed]
      exact List.mem_cons_self
    | @read _ _ _ problem _ _ same | @write _ _ _ _ problem _ _ same => cases problem <;> cases same
    | @load _ _ _ _ _ e _ _ same => cases e <;> cases same
  exact reached.typed.mem (trail.typed.mem there)

/-! ## How a script ends -/

/-- How the command line ends after the run of a program. -/
def Cli.endingOfRun : EStateM.Result Failure Machine Value → Cli.Ending
  | .ok _ _ => .exit 0
  | .error (.defect .interrupted) _ => .surprise .interrupted
  | .error .unfinished _ => .unfinished
  | .error _ _ => .exit Cli.exitFailed

theorem Cli.endingOfRun_error {e : Failure} (typed : e ≠ .defect .interrupted)
    (stopped : e ≠ .unfinished) (m : Machine) :
    Cli.endingOfRun (.error e m) = .exit Cli.exitFailed := by
  cases e with
  | fault f => rfl
  | defect d =>
    cases d with
    | interrupted => exact absurd rfl typed
    | _ => rfl
  | unfinished => exact absurd rfl stopped

namespace Session

/-- A well-formed script ends as its program does. -/
theorem ending_of_program {session : Session} {source : String} {name : Option String}
    {program : Program} (parsed : Program.ofSource session.setup.settings.testMode
      (name <|> session.file) source = (program, [])) :
    Cli.endingOf (session.handle source name).1
      = Cli.endingOfRun (runAll session.setup .nil program session.ready) := by
  unfold handle
  dsimp only
  rw [parsed]
  show Cli.endingOf (runProgram { session with machine := session.ready }
    ⟨source, name <|> session.file⟩ program).1 = _
  unfold runProgram
  dsimp only
  rw [interpret_eq]
  -- tests are reported behind the run, and that changes neither how it ended nor fails
  cases ran : runAll session.setup .nil program session.ready with
  | ok v m =>
    have attempted : attempt session.setup (Report.ofFault ⟨source, name <|> session.file⟩) program
        session.ready = .ok (.ok v) m := by
      unfold attempt
      rw [bind_ok (catchFault_ok ran)]
      rfl
    obtain ⟨m', reported, -⟩ := reportTests_eq _ m
    rw [bind_ok attempted, bind_ok reported]
    rfl
  | error e m =>
    cases e with
    | fault f =>
      obtain ⟨m₁, attempted⟩ : ∃ m₁, attempt session.setup
          (Report.ofFault ⟨source, name <|> session.file⟩) program session.ready
            = .ok (.error f) m₁ := by
        unfold attempt trace
        rw [bind_ok (catchFault_fault ran)]
        split <;> exact ⟨_, rfl⟩
      obtain ⟨m', reported, -⟩ := reportTests_eq _ m₁
      rw [bind_ok attempted, bind_ok reported]
      rfl
    | defect d =>
      have attempted : attempt session.setup (Report.ofFault ⟨source, name <|> session.file⟩) program
          session.ready = .error (.defect d) m :=
        bind_error (catchFault_defect ran)
      rw [bind_error attempted]
      cases d <;> rfl
    | unfinished =>
      have attempted : attempt session.setup (Report.ofFault ⟨source, name <|> session.file⟩) program
          session.ready = .error .unfinished m :=
        bind_error (catchFault_unfinished ran)
      rw [bind_error attempted]
      rfl

/-- A script that is not well formed shows its diagnostics, and nothing else happens. -/
theorem handle_of_diagnostics {session : Session} {source : String} {name : Option String}
    {program : Program} {first : Diagnostic} {others : List Diagnostic}
    (parsed : Program.ofSource session.setup.settings.testMode (name <|> session.file) source
      = (program, first :: others)) :
    (session.handle source name).1 = .malformed (first :: others) ∧
      (session.handle source name).2.events
        = [.effect .error (Diagnostic.report (first :: others))] ∧
      (session.handle source name).2.machine.host = session.machine.host := by
  unfold handle
  dsimp only
  rw [parsed]
  exact ⟨rfl, rfl, rfl⟩

end Session

namespace Cli

variable {call : Invocation} {script : String} {settings : Settings}

/-- The text of a script. -/
def Invocation.text (call : Invocation) (script : String) : Except FileTree.Problem String :=
  call.host.files.readText call.host.current (Path.tidy script)

/-- The overrides that the flags stand for. -/
def Invocation.overrides (call : Invocation) : List (String × Datum) :=
  if "--ast" ∈ call.arguments ∨ "--test" ∈ call.arguments then [("test_mode", .bool true)] else []

/-- The program is called with one script, and with flags that there are. -/
structure Invocation.Asks (call : Invocation) (script : String) : Prop where
  script : call.arguments.filter (fun a => !isFlag a) = [script]
  flags : ∀ a ∈ call.arguments, isFlag a = true → a = "--test" ∨ a = "--ast"

/-- What parsing makes of the text of a script. -/
def parsed (settings : Settings) (script source : String) : Program × List Diagnostic :=
  Program.ofSource settings.testMode (some (Path.tidy script)) source

/-- How a program runs that is the first of a session. -/
def ran (call : Invocation) (settings : Settings) (program : Program) :
    EStateM.Result Failure Machine Value :=
  runAll (call.setup settings) .nil program (Session.start (call.setup settings) call.host)

/-- How the command line ends with a script, and in which circumstances. -/
inductive Ended (call : Invocation) (script : String) (settings : Settings) : Ending → Prop
  /-- The script cannot be read. -/
  | unread {reason : FileTree.Refusal} (text : call.text script = .error (.refused reason)) :
      Ended call script settings (.exit exitUsage)
  /-- The path of the script is none. -/
  | nullByte (text : call.text script = .error .nullByte) :
      Ended call script settings (.surprise .nullByte)
  /-- The bytes of the script are no text. -/
  | undecodable {m : Text.Utf8.Malformed} (text : call.text script = .error (.undecodable m)) :
      Ended call script settings (.surprise (.undecodable m))
  /-- The script is not well formed. -/
  | malformed {source : String} (text : call.text script = .ok source)
      (diagnostics : (parsed settings script source).2 ≠ []) :
      Ended call script settings (.exit exitMalformed)
  /-- The outline of the script is shown. -/
  | shown {source : String} {program : Program} (text : call.text script = .ok source)
      (wellFormed : parsed settings script source = (program, [])) (outline : "--ast" ∈ call.arguments)
      (shallow : program.outlineCalls ≤ call.platform.calls) : Ended call script settings (.exit 0)
  /-- The outline of the script is too deep. -/
  | tooDeep {source : String} {program : Program} (text : call.text script = .ok source)
      (wellFormed : parsed settings script source = (program, [])) (outline : "--ast" ∈ call.arguments)
      (deep : call.platform.calls < program.outlineCalls) :
      Ended call script settings (.surprise .tooDeep)
  /-- The script runs to its end. -/
  | succeeded {source : String} {program : Program} {v : Value} {m : Machine}
      (text : call.text script = .ok source)
      (wellFormed : parsed settings script source = (program, [])) (run : "--ast" ∉ call.arguments)
      (succeeds : ran call settings program = .ok v m) : Ended call script settings (.exit 0)
  /-- The script fails. -/
  | failed {source : String} {program : Program} {e : Failure} {m : Machine}
      (text : call.text script = .ok source)
      (wellFormed : parsed settings script source = (program, [])) (run : "--ast" ∉ call.arguments)
      (fails : ran call settings program = .error e m) (other : e ≠ .defect .interrupted)
      (finished : e ≠ .unfinished) : Ended call script settings (.exit exitFailed)
  /-- The user interrupts an input. -/
  | interrupted {source : String} {program : Program} {m : Machine}
      (text : call.text script = .ok source)
      (wellFormed : parsed settings script source = (program, [])) (run : "--ast" ∉ call.arguments)
      (stops : ran call settings program = .error (.defect .interrupted) m) :
      Ended call script settings (.surprise .interrupted)

/-- The script is run, and its run is not over after the rounds for which it is followed. -/
inductive GoesOn (call : Invocation) (script : String) (settings : Settings) : Prop
  | intro {source : String} {program : Program} {m : Machine} (text : call.text script = .ok source)
      (wellFormed : parsed settings script source = (program, [])) (run : "--ast" ∉ call.arguments)
      (unfinished : ran call settings program = .error .unfinished m)

/-- The circumstances exclude each other. -/
theorem Ended.unique {ending ending' : Ending} (h : Ended call script settings ending)
    (h' : Ended call script settings ending') : ending = ending' := by
  cases h <;> cases h' <;> simp_all
  all_goals omega

/-- A run that is not over has no ending. -/
theorem Ended.not_goesOn {ending : Ending} (h : Ended call script settings ending) :
    ¬GoesOn call script settings := by
  rintro ⟨text, wellFormed, run, unfinished⟩
  cases h <;> simp_all

theorem Ended.finished {ending : Ending} (h : Ended call script settings ending) :
    ending ≠ .unfinished := by
  cases h <;> exact Ending.noConfusion

theorem run_eq (asks : call.Asks script) :
    run call = if "--ast" ∈ call.arguments then showOutline call script
      else runScript call script (decide ("--test" ∈ call.arguments)) := by
  have known : (call.arguments.filter isFlag).any (fun f => f != "--test" && f != "--ast") = false := by
    refine List.any_eq_false.mpr fun f there => ?_
    obtain ⟨there, flag⟩ := List.mem_filter.mp there
    rcases asks.flags f there flag with rfl | rfl <;> simp
  have holds (flag : String) (isFlag' : isFlag flag = true) :
      (call.arguments.filter isFlag).contains flag = decide (flag ∈ call.arguments) := by
    simp [List.mem_filter, isFlag']
  unfold run
  dsimp only
  rw [if_neg (by simp [known]), asks.script]
  dsimp only
  rw [holds "--ast" (by decide), holds "--test" (by decide)]
  simp only [decide_eq_true_eq]

/-- Reading the settings goes on with them, if they can be loaded. -/
theorem withSettings_eq {dir : String} {overrides : List (String × Datum)} {next : Settings → Result}
    (loads : Settings.load call.platform.read call.host call.environment (some dir) overrides = .ok settings) :
    withSettings call dir overrides next = next settings := by
  unfold withSettings
  rw [loads]

/-- A script that cannot be read is not gone on with. -/
theorem ended_withScript {next : String → String → Result}
    (goes : ∀ source, call.text script = .ok source →
      Ended call script settings (next source (Path.tidy script)).ending) :
    Ended call script settings (withScript call script next).ending := by
  unfold withScript
  dsimp only
  cases text : call.text script with
  | ok source =>
    have read : call.host.files.readText call.host.current (Path.tidy script) = .ok source := text
    rw [read]
    exact goes source text
  | error problem =>
    have read : call.host.files.readText call.host.current (Path.tidy script) = .error problem := text
    rw [read]
    cases problem with
    | refused reason => exact .unread text
    | nullByte => exact .nullByte text
    | undecodable m => exact .undecodable text

/-- A script that can be read is shown or run, if the settings can be loaded. -/
theorem run_of_text (asks : call.Asks script)
    (loads : Settings.load call.platform.read call.host call.environment
      (some (directoryOf call.host (Path.tidy script))) call.overrides = .ok settings) {source : String} (text : call.text script = .ok source) :
    run call =
      if "--ast" ∈ call.arguments then
        let (program, diagnostics) := parsed settings script source
        if !diagnostics.isEmpty then
          complain call.host exitMalformed (Diagnostic.report diagnostics)
        else if program.outlineCalls > call.platform.calls then surprised call.host .tooDeep
        else ⟨[.effect .output (program.outline 2)], .exit 0, call.host⟩
      else
        let handled := (Session.new (call.setup settings) call.host).handle source
          (some (Path.tidy script))
        ⟨handled.2.events, endingOf handled.1, handled.2.machine.host⟩ := by
  have read : call.host.files.readText call.host.current (Path.tidy script) = .ok source := text
  rw [run_eq asks]
  unfold Invocation.overrides at loads
  -- the outline is shown for the program as it is parsed for tests
  by_cases outline : "--ast" ∈ call.arguments
  · rw [if_pos (.inl outline)] at loads
    rw [if_pos outline, if_pos outline]
    unfold showOutline withScript
    dsimp only
    rw [read]
    exact withSettings_eq loads
  · simp only [outline, false_or] at loads
    rw [if_neg outline, if_neg outline]
    unfold runScript withScript
    dsimp only
    rw [read]
    simp only [decide_eq_true_eq]
    exact withSettings_eq loads

/-- A script that is not well formed leaves the surroundings alone, and what is shown is its
diagnostics. -/
theorem run_malformed (asks : call.Asks script)
    (loads : Settings.load call.platform.read call.host call.environment
      (some (directoryOf call.host (Path.tidy script))) call.overrides = .ok settings) {source : String} (text : call.text script = .ok source)
    (diagnostics : (parsed settings script source).2 ≠ []) :
    run call = ⟨[.effect .error (Diagnostic.report (parsed settings script source).2)],
      .exit exitMalformed, call.host⟩ := by
  rw [run_of_text asks loads text]
  cases read : parsed settings script source with
  | mk program complaints =>
    rw [read] at diagnostics
    cases complaints with
    | nil => exact absurd rfl diagnostics
    | cons first others =>
      split
      · rfl
      · let session := Session.new (call.setup settings) call.host
        have parsed : Program.ofSource session.setup.settings.testMode
            (some (Path.tidy script) <|> session.file) source = (program, first :: others) := read
        obtain ⟨outcome, events, host⟩ := Session.handle_of_diagnostics parsed
        dsimp only
        rw [outcome, events, host]
        rfl

/-- What becomes of a script if the settings can be loaded. -/
theorem ended_or_goesOn (asks : call.Asks script)
    (loads : Settings.load call.platform.read call.host call.environment
      (some (directoryOf call.host (Path.tidy script))) call.overrides = .ok settings) :
    Ended call script settings (run call).ending ∨
      (run call).ending = .unfinished ∧ GoesOn call script settings := by
  cases text : call.text script with
  | error problem =>
    have unread (next : String → String → Result) :
        Ended call script settings (withScript call script next).ending :=
      ended_withScript fun source read => nomatch text.symm.trans read
    rw [run_eq asks]
    split
    · exact .inl (unread _)
    · exact .inl (unread _)
  | ok source =>
    cases wellFormed : parsed settings script source with
    | mk program diagnostics =>
      -- a script that is not well formed ends here, whether it is to be shown or run
      cases diagnostics with
      | cons first others =>
        have diagnostics : (parsed settings script source).2 ≠ [] := by
          rw [wellFormed]
          exact List.cons_ne_nil first others
        rw [run_malformed asks loads text diagnostics]
        exact .inl (.malformed text diagnostics)
      | nil =>
        rw [run_of_text asks loads text]
        by_cases outline : "--ast" ∈ call.arguments
        · rw [if_pos outline, wellFormed]
          dsimp only
          by_cases deep : call.platform.calls < program.outlineCalls
          · rw [if_neg (by simp), if_pos deep]
            exact .inl (.tooDeep text wellFormed outline deep)
          · rw [if_neg (by simp), if_neg deep]
            exact .inl (.shown text wellFormed outline (Nat.le_of_not_lt deep))
        · rw [if_neg outline]
          have ends : endingOf ((Session.new (call.setup settings) call.host).handle source
              (some (Path.tidy script))).1 = endingOfRun (ran call settings program) :=
            Session.ending_of_program wellFormed
          dsimp only
          rw [ends]
          cases run : ran call settings program with
          | ok v m => exact .inl (.succeeded text wellFormed outline run)
          | error e m =>
            by_cases goesOn : e = .unfinished
            · subst goesOn
              exact .inr ⟨rfl, text, wellFormed, outline, run⟩
            · by_cases stopped : e = .defect .interrupted
              · subst stopped
                exact .inl (.interrupted text wellFormed outline run)
              · rw [endingOfRun_error stopped goesOn]
                exact .inl (.failed text wellFormed outline run stopped goesOn)

/-- Settings can be loaded, and the program is called with one script and flags that there are: then
the command line ends in exactly one of the ways listed, and each of them in its circumstances only,
unless the run of the script goes on. A script that is not well formed leaves the surroundings alone
and shows nothing but its diagnostics. An input is interrupted only if an interrupt is typed. -/
theorem run_ends (call : Invocation) (script : String) (settings : Settings)
    (asks : call.Asks script)
    (loads : Settings.load call.platform.read call.host call.environment
      (some (directoryOf call.host (Path.tidy script))) call.overrides = .ok settings) :
    (∀ ending, ending ≠ .unfinished →
      ((run call).ending = ending ↔ Ended call script settings ending)) ∧
    ((run call).ending = .unfinished ↔ GoesOn call script settings) ∧
    ((run call).ending = .exit exitMalformed → (run call).host = call.host ∧
      ∃ source, call.text script = .ok source ∧
        (run call).events = [.effect .error (Diagnostic.report (parsed settings script source).2)]) ∧
    ((run call).ending = .surprise .interrupted → .interrupt ∈ call.host.typed) := by
  have both := ended_or_goesOn asks loads
  have ended : (run call).ending ≠ .unfinished → Ended call script settings (run call).ending :=
    fun finished => both.resolve_right fun goes => finished goes.1
  refine ⟨fun ending finished => ⟨fun same => ?_, fun ends => ?_⟩, ⟨fun same => ?_, fun goes => ?_⟩,
    fun malformed => ?_, fun stopped => ?_⟩
  · subst same
    exact ended finished
  · exact (both.resolve_right fun goes => ends.not_goesOn goes.2).unique ends
  · exact (both.resolve_left fun ends => ends.finished same).2
  · exact (both.resolve_left fun ends => ends.not_goesOn goes).1
  · have ended := ended (by simp [malformed])
    rw [malformed] at ended
    cases ended with
    | malformed text diagnostics =>
      rw [run_malformed asks loads text diagnostics]
      exact ⟨rfl, _, text, rfl⟩
  · have ended := ended (by simp [stopped])
    rw [stopped] at ended
    cases ended with
    | interrupted _ _ _ stops => exact Program.interrupt_typed ⟨_, stops⟩

/-- A script of one byte that begins no character is a surprise. -/
theorem run_ends_garbled :
    (run ⟨["a.bin"], [], Host.garbled, ⟨Document.read, Report.filled, Limits.standard, 1000⟩⟩).ending
      = .surprise (.undecodable ⟨0xff, 0, 1, .start⟩) := by
  let call : Invocation :=
    ⟨["a.bin"], [], Host.garbled, ⟨Document.read, Report.filled, Limits.standard, 1000⟩⟩
  have tidy : Path.tidy "a.bin" = "a.bin" := by decide +kernel
  have asks : call.Asks "a.bin" := ⟨by decide, fun a there flag => by
    obtain rfl := List.mem_singleton.mp there
    cases flag⟩
  have directory : directoryOf Host.garbled "a.bin" = "/" := by decide +kernel
  have loads : Settings.load Document.read Host.garbled []
      (some (directoryOf Host.garbled (Path.tidy "a.bin"))) [] = .ok { sourceDir := .text "/" } := by
    rw [tidy, directory]
    rfl
  have text : call.text "a.bin" = .error (.undecodable ⟨0xff, 0, 1, .start⟩) := by
    have bytes : Host.garbled.files.readBytes "/" "a.bin" = .ok ⟨#[0xff]⟩ := rfl
    have decoded : Text.Utf8.decode ⟨#[0xff]⟩ = .error ⟨0xff, 0, 1, .start⟩ := by
      cbv
    show Host.garbled.files.readText "/" (Path.tidy "a.bin") = _
    rw [tidy, FileTree.readText, bytes]
    simp only [decoded]
  obtain ⟨ends, -⟩ := run_ends call "a.bin" _ asks loads
  exact (ends _ Ending.noConfusion).mpr (.undecodable text)

end Cli

end ContractScript
