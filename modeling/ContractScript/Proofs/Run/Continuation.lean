/-
One script or two.

A session that runs a script and then another one ends in the state that it would be in
after one script made of both, the second on a new line: nothing is left between the two
that a single script would not have. It has to be the case that the first script succeeds,
since a script ends with its first fault, and that tests are not run, since they are
reported once per script. The events of the two scripts differ from those of the one in
what shows places; what is printed is the same.
-/
import ContractScript.Proofs.Program.Joining
import ContractScript.Proofs.Run.LayoutIrrelevance

set_option autoImplicit false

namespace ContractScript

open EvalM

variable {setup : Setup}

/-! ## Programs in two parts -/

theorem runAll_append (p q : Program) :
    ∀ last, runAll setup last (p ++ q) = runAll setup last p >>= fun v => runAll setup v q := by
  induction p with
  | nil => exact fun last => (pure_bind last fun v => runAll setup v q).symm
  | cons s p ih =>
    intro last
    rw [List.cons_append, runAll, runAll, bind_assoc]
    exact congrArg (runTop setup s >>= ·) (funext ih)

/-- A program whose first part comes to its end goes on from there with its second part. -/
theorem interpret_append (describe : Fault → String) {p : Program} {m m₁ : Machine} {v : Value}
    (ran : runAll setup .nil p m = .ok v m₁) (s : Stmt) (q : Program) :
    interpret setup describe (p ++ s :: q) m = interpret setup describe (s :: q) m₁ := by
  have caught : catchFault (runAll setup .nil (p ++ s :: q)) m
      = catchFault (runAll setup .nil (s :: q)) m₁ := by
    unfold catchFault
    rw [runAll_append, bind_ok ran]
    -- the value so far is not that of the last statement
    rfl
  show EStateM.bind _ _ m = EStateM.bind _ _ m₁
  unfold EStateM.bind
  rw [caught]

theorem Session.runProgram_append {p : Program} {m m₁ : Machine} {v : Value}
    (ran : runAll setup .nil p m = .ok v m₁) (script : Report.Script) (file : Option String)
    (s : Stmt) (q : Program) :
    Session.runProgram ⟨setup, m, file⟩ script (p ++ s :: q)
      = Session.runProgram ⟨setup, m₁, file⟩ script (s :: q) := by
  unfold Session.runProgram
  rw [interpret_append _ ran]

/-! ## The state between two scripts -/

theorem reportTests_none {setup : Setup} {m : Machine} (none : m.tests = []) :
    reportTests setup m = .ok () m := by
  unfold reportTests
  rw [get_bind, none]
  rfl

/-- Stores are alike whatever is observed. -/
theorem Store.Like.reterm {T U : Terms} {ρ : Renaming} {s s' : Store} (h : s.Like T ρ s')
    (place : T.place = U.place) (mode : T.mode = U.mode) (exact : T.exact = U.exact) :
    s.Like U ρ s' := by
  have closure : ∀ c c', Closure.Like T ρ c c' → Closure.Like U ρ c c' := by
    intro c c' like
    obtain ⟨signature, body, scope⟩ := like
    rw [place, mode] at signature body
    exact ⟨signature, body, scope⟩
  obtain ⟨lists, maps, functions, scopes⟩ := h
  rw [exact] at lists maps functions scopes
  exact ⟨lists, maps, functions.mono closure, scopes⟩

/-- The state after a program without tests that came to its end is the one in which the next script
starts, but for what has been observed. -/
theorem ready_like {program : Program} (untested : Stmt.AllTestFree program) {host : Host} {v : Value}
    {m : Machine} (ran : runAll setup .nil program (Session.start setup host) = .ok v m)
    (file : Option String) :
    m.tests = [] ∧ ∃ ρ, (Session.ready ⟨setup, m, file⟩).Like
      (.printing .untested nofun [] m.events) ρ m := by
  have follows : Follows (.printing .untested nofun [] []) Session.references Value.Like
      (runAll setup .nil program) (runAll setup .nil program) :=
    runAll_follows (Stmt.Like.reflAll program fun _ => untested) .nil
  have ends := follows _ _ (Session.start_like setup host rfl rfl)
  have kept := runAll_keeps setup program .nil (Session.start setup host)
  unfold finalState at kept
  rw [ran] at ends kept
  have frames : m.frames = [] := congrArg Surroundings.frames kept
  cases ends with
  | @ok ρ _ _ _ _ _ state _ =>
    have none : m.tests = [] := state.untested nofun
    -- the next script starts without frames and events; all else is left as it is
    refine ⟨none, ρ, ?_⟩
    exact
      { store := state.store.reterm rfl rfl rfl
        scope := state.scope
        frames := by
          rw [frames]
          exact .nil
        directory := rfl
        importing := fun _ => Iff.rfl
        tests := state.tests
        untested := fun _ => none
        events := ⟨[], [], rfl, rfl, .nil⟩
        host := rfl }

/-! ## Sessions -/

/-- A first script without tests that succeeds leaves the state in which its program came to its
end. -/
theorem Session.handle_success {host : Host} {source : String} {name : Option String} {v : Value}
    (off : setup.settings.testMode = false) (read : (Program.ofSource false name source).2 = [])
    (succeeded : ((Session.new setup host).handle source name).1 = .success v) :
    ∃ m, runAll setup .nil (Program.ofSource false name source).1 (Session.start setup host)
        = .ok v m ∧ m.tests = [] ∧
      ((Session.new setup host).handle source name).2 = ⟨setup, m, name⟩ := by
  rw [Session.handle_new, off, read] at succeeded ⊢
  generalize ended : (Session.new setup host).runProgram ⟨source, name⟩
    (Program.ofSource false name source).1 = r at succeeded ⊢
  obtain ⟨outcome, m₂⟩ := r
  cases succeeded
  obtain ⟨w, m, ran, rest⟩ := bind_eq_ok (Session.runProgram_eq_success.mp ended)
  obtain ⟨_, m₁, reported, same⟩ := bind_eq_ok rest
  have none := (ready_like (Program.testFree_of_ofSource name source) ran none).1
  rw [reportTests_none none] at reported
  cases reported
  cases same
  exact ⟨_, ran, none, rfl⟩

/-- A script under the name of the one before it, in a session that does not run tests. -/
theorem Session.handle_next {m : Machine} {source : String} {name : Option String}
    (off : setup.settings.testMode = false) (read : (Program.ofSource false name source).2 = []) :
    Session.handle ⟨setup, m, name⟩ source name =
      let ran := Session.runProgram ⟨setup, Session.ready ⟨setup, m, name⟩, name⟩ ⟨source, name⟩
        (Program.ofSource false name source).1
      (ran.1, ⟨setup, ran.2, name⟩) := by
  have named : (name <|> name) = name := by cases name <;> rfl
  unfold Session.handle
  simp only [named, off, read]
  rfl

theorem Session.handle_new_quiet {host : Host} {source : String} {name : Option String}
    {program : Program} (off : setup.settings.testMode = false)
    (read : Program.ofSource false name source = (program, [])) :
    (Session.new setup host).handle source name =
      let ran := (Session.new setup host).runProgram ⟨source, name⟩ program
      (ran.1, ⟨setup, ran.2, name⟩) := by
  rw [Session.handle_new, off, read]
  rfl

/-- If the first of two sources that are well formed succeeds, then running the second one after it
ends like running both as one script, the second on a new line: in the same state, with the same
lines printed, and with the same value or fault. Where the second source has no statements the one
script has the value of the first. -/
theorem one_script_or_two (setup : Setup) (host : Host) (name : Option String) (a b : String)
    (off : setup.settings.testMode = false) (readA : (Program.ofSource false name a).2 = [])
    (readB : (Program.ofSource false name b).2 = []) (v : Value)
    (succeeded : ((Session.new setup host).handle a name).1 = .success v) :
    let first := ((Session.new setup host).handle a name).2
    let second := first.handle b name
    let whole := (Session.new setup host).handle (a ++ "\n" ++ b) name
    second.2.machine.SameButPlaces .untested whole.2.machine ∧
    outputs first.events ++ outputs second.2.events = outputs whole.2.events ∧
    ((Program.ofSource false name b).1 ≠ [] →
      Outcome.SameButPlaces ⟨b, name⟩ ⟨a ++ "\n" ++ b, name⟩ second.1 whole.1) ∧
    ((Program.ofSource false name b).1 = [] → second.1 = .success .nil ∧ whole.1 = .success v) := by
  obtain ⟨m, ran, noTests, after⟩ := Session.handle_success off readA succeeded
  obtain ⟨-, ρ, ready⟩ := ready_like (Program.testFree_of_ofSource name a) ran name
  obtain ⟨later, like, joined⟩ := Program.ofSource_join readA readB
  dsimp only
  rw [after, Session.handle_next off readB, Session.handle_new_quiet off joined]
  generalize (Program.ofSource false name b).1 = program at like ⊢
  cases like with
  | nil =>
    -- the second script does nothing, and the one script ends where the first did
    have idle : Session.runProgram ⟨setup, Session.ready ⟨setup, m, name⟩, name⟩ ⟨b, name⟩ []
        = (.success .nil, Session.ready ⟨setup, m, name⟩) :=
      Session.runProgram_eq_success.mpr
        (bind_ok (show reportTests setup (Session.ready ⟨setup, m, name⟩) = _ from reportTests_none noTests))
    have alone : (Session.new setup host).runProgram ⟨a ++ "\n" ++ b, name⟩
        ((Program.ofSource false name a).1 ++ []) = (.success v, m) := by
      rw [List.append_nil]
      exact Session.runProgram_eq_success.mpr ((bind_ok ran).trans (bind_ok (reportTests_none noTests)))
    rw [idle, alone]
    exact ⟨ready.sameButPlaces rfl, List.append_nil _, fun some => absurd rfl some, fun _ => ⟨rfl, rfl⟩⟩
  | @cons s s' rest rest' one others =>
    -- the one script is, after its first part, where the second script starts
    have continued : (Session.new setup host).runProgram ⟨a ++ "\n" ++ b, name⟩
        ((Program.ofSource false name a).1 ++ s' :: rest')
        = Session.runProgram ⟨setup, m, none⟩ ⟨a ++ "\n" ++ b, name⟩ (s' :: rest') :=
      Session.runProgram_append ran _ _ s' rest'
    obtain ⟨σ, -, outcome, state⟩ := Session.runProgram_like
      (T := .printing .untested nofun [] m.events) (show Mode.untested ≠ .erasing from nofun)
      (fun _ _ _ => rfl) (show Mode.untested = .tested → _ from nofun) (.cons one others) ready name
      Option.none
    obtain ⟨prints, written, written'⟩ := state.outputs
    have kept := Session.runProgram_surroundings ⟨setup, Session.ready ⟨setup, m, name⟩, name⟩
      ⟨b, name⟩ (s :: rest)
    have kept' := Session.runProgram_surroundings ⟨setup, m, none⟩ ⟨a ++ "\n" ++ b, name⟩
      (s' :: rest')
    rw [continued]
    refine ⟨state.sameButPlaces ((congrArg Surroundings.importing kept).trans
      (congrArg Surroundings.importing kept').symm), ?_, fun _ => outcome.sameButPlaces state, fun empty => by cases empty⟩
    show outputs m.events.reverse ++ outputs (List.reverse _) = outputs (List.reverse _)
    rw [written, written']
    rfl

/-- A source that declares a function. -/
def declaringSource : String :=
  "fun same(x) \x7b return x; \x7d\nprint \"one\";"

/-- A source that calls it, and then fails. -/
def callingSource : String :=
  "print same(\"two\");\nmissing;"

/-- Whether a script ended with nil. -/
def Outcome.isNil : Outcome → Bool
  | .success .nil => true
  | _ => false

theorem Outcome.eq_of_isNil {outcome : Outcome} (h : outcome.isNil = true) :
    outcome = .success .nil := by
  unfold Outcome.isNil at h
  split at h
  · rfl
  · cases h

/-- The function of the first source is there for the second, and the fault is that of the one
script. -/
theorem one_script_or_two_calling :
    ((Program.ofSource false none declaringSource).2 = [] ∧
      (Program.ofSource false none callingSource).2 = [] ∧
      ((Session.new Setup.small Host.bare).handle declaringSource none).1 = .success .nil) ∧
    let first := ((Session.new Setup.small Host.bare).handle declaringSource none).2
    let second := first.handle callingSource none
    let whole := (Session.new Setup.small Host.bare).handle
      (declaringSource ++ "\n" ++ callingSource) none
    second.2.machine.SameButPlaces .untested whole.2.machine ∧
    outputs first.events ++ outputs second.2.events = ["one", "two"] ∧
    Outcome.SameButPlaces ⟨callingSource, none⟩ ⟨declaringSource ++ "\n" ++ callingSource, none⟩
      second.1 whole.1 := by
  have readA : (Program.ofSource false none declaringSource).2 = [] := by decide +kernel
  have readB : (Program.ofSource false none callingSource).2 = [] := by decide +kernel
  have ended : ((Session.new Setup.small Host.bare).handle declaringSource none).1.isNil = true := by
    decide +kernel
  have succeeded := Outcome.eq_of_isNil ended
  obtain ⟨state, printed, outcome, -⟩ := one_script_or_two Setup.small Host.bare none declaringSource
    callingSource rfl readA readB .nil succeeded
  refine ⟨⟨readA, readB, succeeded⟩, state, ?_, outcome (by decide +kernel)⟩
  rw [printed]
  decide +kernel

end ContractScript
