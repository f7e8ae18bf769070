/-
What a script has written it reads again.

The files are handed from one evaluation to the next, and only the call of a built-in function can
change them. Along the chronicle of a run the calls of built-in functions therefore form a chain:
each starts with the files that the one before it has left. All of them but calls to write leave the
files as they are. So a file that was written is still there when it is read, as long as nothing has
been written in its place, however the two calls are nested in the run.

What is read is not quite what was written: every text is encoded and decoded again without loss, but
a reader unifies line ends and a writer does not. So exactly the texts without a carriage return come
back as they were.
-/
import ContractScript.Proofs.Host.Files
import ContractScript.Proofs.Run.Nesting
import ContractScript.Proofs.Run.TestResults

set_option autoImplicit false

namespace ContractScript

open EvalM Course

/-- The files of a state, and where the host is in them. -/
def Machine.site (m : Machine) : Module.Site := m.host.site

instance : Storeless Machine.site := ⟨fun _ _ => rfl, fun _ _ => rfl⟩

instance : Detached Machine.site := ⟨fun _ _ _ _ _ => rfl⟩

instance : Located Machine.site where
  contents _ _ _ := rfl
  events _ _ := rfl
  host _ _ same := same

/-! ## Calls of built-in functions -/

/-- The place of the file that an evaluation writes. -/
def Config.written? (setup : Setup) (c : Config) : Option (List String) :=
  match c.depth, c.task with
  | _ + 1, .invoke (.native .write) [.text path, .text _] =>
    c.machine.host.target? setup.settings.directory path
  | _, _ => none

/-- A script writes a file where the host does, and nothing else changes. -/
theorem writeFile_eq (setup : Setup) (path text : String) (m : Machine) :
    Native.writeFile setup path text m =
      match m.host.write setup.settings.directory path text with
      | .ok host => .ok .nil { m with host := host }
      | .error problem => Native.fileProblem .writeRefused problem m := by
  unfold Native.writeFile
  rw [get_bind]
  cases m.host.write setup.settings.directory path text <;> rfl

theorem readFile_ok {setup : Setup} {path text : String} {m : Machine}
    (read : m.host.read setup.settings.directory path = .ok text) :
    Native.readFile setup path m = .ok (.text text) m := by
  unfold Native.readFile
  rw [get_bind, read]
  rfl

/-- What is written has found a place, and is there afterwards. -/
theorem writeFile_ok {setup : Setup} {path text : String} {v : Value} {m m' : Machine}
    (ran : Native.writeFile setup path text m = .ok v m') :
    ∃ found, m.host.target? setup.settings.directory path = some found ∧
      m'.site = { m.site with files := m.host.files.insert found (.file (Text.Utf8.encode text)) } := by
  rw [writeFile_eq] at ran
  cases written : m.host.write setup.settings.directory path text with
  | ok host =>
    rw [written] at ran
    obtain ⟨found, target, rfl⟩ := Host.write_eq_ok.mp written
    cases ran
    exact ⟨found, target, rfl⟩
  | error problem =>
    rw [written] at ran
    cases problem <;> cases ran

theorem writeFile_error {setup : Setup} {path text : String} {e : Failure} {m m' : Machine}
    (failed : Native.writeFile setup path text m = .error e m') : m' = m := by
  rw [writeFile_eq] at failed
  cases written : m.host.write setup.settings.directory path text with
  | ok host =>
    rw [written] at failed
    cases failed
  | error problem =>
    rw [written] at failed
    cases problem <;> cases failed <;> rfl

/-- The call of a built-in function leaves the files alone, or it writes one. -/
theorem native_site (setup : Setup) (depth : Nat) (g : Native) (arguments : List Value) (m : Machine) :
    (finalState (g.call setup depth arguments) m).site = m.site ∨
      ∃ path text found, g = .write ∧ arguments = [.text path, .text text] ∧
        m.host.target? setup.settings.directory path = some found ∧
        (finalState (g.call setup depth arguments) m).site
          = { m.site with files := m.host.files.insert found (.file (Text.Utf8.encode text)) } := by
  by_cases writes : ∃ path text, g = .write ∧ arguments = [.text path, .text text]
  · obtain ⟨path, text, rfl, rfl⟩ := writes
    have same : Native.call setup depth .write [.text path, .text text]
        = Native.writeFile setup path text := rfl
    rw [same]
    unfold finalState
    cases ran : Native.writeFile setup path text m with
    | ok v m' =>
      obtain ⟨found, target, written⟩ := writeFile_ok ran
      exact .inr ⟨path, text, found, rfl, rfl, target, written⟩
    | error e m' => exact .inl (congrArg Machine.site (writeFile_error ran))
  · refine .inl (Keeps.native_if setup depth g arguments (fun same path text given => ?_) m)
    exact absurd ⟨path, text, same, given⟩ writes

/-- A file that is there stays there when a built-in function is called, unless it is written. -/
theorem Host.Preserves.called {setup : Setup} {found : List String} {bytes : ByteArray}
    {site : Module.Site} {c : Config} {g : Native} {arguments : List Value}
    (kept : Host.Preserves found bytes site c.machine.site)
    (task : c.task = .invoke (.native g) arguments) (other : c.written? setup ≠ some found) :
    Host.Preserves found bytes site (c.finalState setup).site := by
  obtain ⟨depth, task, m⟩ := c
  subst task
  cases depth with
  | zero => exact kept
  | succ depth =>
    rcases native_site setup depth g arguments m with same | ⟨path, text, there, rfl, rfl, target, written⟩
    · exact same.symm ▸ kept
    · have differ : there ≠ found := fun same => other (target.trans (congrArg some same))
      exact written.symm ▸ kept.written target differ

/-! ## Evaluations one after another -/

/-- Evaluations end one after another. The call of a built-in function starts with the files that
there are, and leaves those that there are next; other evaluations leave the files to their calls. -/
inductive Chained (setup : Setup) : Module.Site → List Config → Module.Site → Prop
  | done {s : Module.Site} : Chained setup s [] s
  | call {c : Config} {g : Native} {arguments : List Value} {rest : List Config} {s s' : Module.Site}
      (task : c.task = .invoke (.native g) arguments) (starts : c.machine.site = s)
      (further : Chained setup (c.finalState setup).site rest s') : Chained setup s (c :: rest) s'
  | other {c : Config} {rest : List Config} {s s' : Module.Site}
      (task : ∀ g arguments, c.task ≠ .invoke (.native g) arguments)
      (further : Chained setup s rest s') : Chained setup s (c :: rest) s'

namespace Chained

variable {setup : Setup} {s s₁ s' : Module.Site} {ended further : List Config}

theorem append (h : Chained setup s ended s₁) (h' : Chained setup s₁ further s') :
    Chained setup s (ended ++ further) s' := by
  induction h with
  | done => exact h'
  | call task starts _ ih => exact .call task starts (ih h')
  | other task _ ih => exact .other task (ih h')

theorem split (h : Chained setup s (ended ++ further) s') :
    ∃ s₁, Chained setup s ended s₁ ∧ Chained setup s₁ further s' := by
  induction ended generalizing s with
  | nil => exact ⟨s, .done, h⟩
  | cons c rest ih =>
    cases h with
    | call task starts h =>
      obtain ⟨s₁, first, last⟩ := ih h
      exact ⟨s₁, .call task starts first, last⟩
    | other task h =>
      obtain ⟨s₁, first, last⟩ := ih h
      exact ⟨s₁, .other task first, last⟩

/-- The call of a built-in function is a link of the chain. -/
theorem head {c : Config} {g : Native} {arguments : List Value}
    (h : Chained setup s (c :: further) s') (task : c.task = .invoke (.native g) arguments) :
    c.machine.site = s ∧ Chained setup (c.finalState setup).site further s' := by
  cases h with
  | call _ starts h => exact ⟨starts, h⟩
  | other none _ => exact absurd task (none g arguments)

/-- A file that is there stays there, if none of the evaluations writes it. -/
theorem preserves (h : Chained setup s ended s') {found : List String} {bytes : ByteArray}
    {site : Module.Site} (kept : Host.Preserves found bytes site s)
    (untouched : ∀ c ∈ ended, c.written? setup ≠ some found) :
    Host.Preserves found bytes site s' := by
  induction h with
  | done => exact kept
  | @call c g arguments rest s s' task starts _ ih =>
    rw [List.forall_mem_cons] at untouched
    exact ih (Host.Preserves.called (starts.symm ▸ kept) task untouched.1) untouched.2
  | other _ _ ih =>
    rw [List.forall_mem_cons] at untouched
    exact ih kept untouched.2

/-- The chronicles of questions one after another form a chain, if each of them does. -/
theorem of_handed {depth : Nat} {asked : List Question}
    (each : ∀ q : Question, Chained setup q.machine.site (chronicle setup depth q.task q.machine)
      (q.ended setup depth).site) (handed : Handed Machine.site setup depth s asked s') :
    Chained setup s (asked.flatMap fun q => chronicle setup depth q.task q.machine) s' := by
  induction handed with
  | done => exact .done
  | @next q rest s s' starts _ ih =>
    rw [List.flatMap_cons, ← starts]
    exact (each q).append ih

end Chained

/-- The chronicle of an evaluation is a chain from the files with which it starts to those with which
it ends. -/
theorem chained (setup : Setup) (depth : Nat) (task : Task) (m : Machine) :
    Chained setup m.site (chronicle setup depth task m)
      (Config.finalState setup ⟨depth, task, m⟩).site := by
  induction depth generalizing task m with
  | zero =>
    -- out of levels nothing happens, also in a call of a built-in function
    cases task with
    | invoke f arguments =>
      cases f with
      | native g => exact .call rfl rfl .done
      | _ => exact .other nofun .done
    | _ => exact .other nofun .done
  | succ depth ih =>
    by_cases native : ∃ g arguments, task = .invoke (.native g) arguments
    · -- a built-in function asks for nothing, so its call is all there is
      obtain ⟨g, arguments, rfl⟩ := native
      exact .call rfl rfl .done
    · have other : ∀ g arguments, task ≠ .invoke (.native g) arguments :=
        fun g arguments same => native ⟨g, arguments, same⟩
      have handed := Task.handed Machine.site setup depth
        (fun g arguments same => absurd same (other g arguments)) (fun _ _ _ _ _ _ => rfl) m
      have asked := Chained.of_handed (fun q => ih q.task q.machine) handed
      exact asked.append (.other other .done)

/-! ## Scripts -/

/-- The chronicle of a program is a chain. -/
theorem Program.chained (setup : Setup) (program : Program) : ∀ (last : Value) (m : Machine),
    Chained setup m.site (program.chronicle setup m) (finalState (runAll setup last program) m).site := by
  induction program with
  | nil => exact fun _ _ => .done
  | cons s rest ih =>
    intro last m
    have first := ContractScript.chained setup setup.limits.depth s.topTask m
    have top : (finalState (runTop setup s) m).site = (Config.finalState setup (.top setup s m)).site :=
      view_runTop setup s m
    change Chained setup m.site ((Config.top setup s m).chronicle setup)
      (Config.finalState setup (.top setup s m)).site at first
    rw [← top] at first
    rw [runAll, finalState_bind, Program.chronicle]
    unfold finalState at first
    cases run : runTop setup s m with
    | ok v m' =>
      rw [run] at first
      exact first.append (ih v m')
    | error e m' =>
      rw [run] at first
      exact first.append .done

namespace Session

/-- The chronicle of a script is a chain. -/
theorem chained_ended (session : Session) (source : String) (name : Option String) :
    Chained session.setup session.machine.site (session.ended source name)
      (session.handle source name).2.machine.site := by
  unfold ended handle
  dsimp only
  split
  · obtain ⟨program, -⟩ :=
      Program.ofSource session.setup.settings.testMode (name <|> session.file) source
    have run := Program.chained session.setup program .nil session.ready
    have ends : (({ session with machine := session.ready } : Session).runProgram
          ⟨source, name <|> session.file⟩ program).2.site
        = (finalState (runAll session.setup .nil program) session.ready).site :=
      (view_runProgram _ _ program).trans (view_interpret (fun _ _ => rfl) _ _ program session.ready)
    rw [← ends] at run
    exact run
  · exact .done

/-- The chronicle of a session is a chain. -/
theorem chained (session : Session) (scripts : List (String × Option String)) :
    Chained session.setup session.machine.site (session.chronicle scripts)
      (session.after scripts).machine.site := by
  induction scripts generalizing session with
  | nil => exact .done
  | cons script rest ih =>
    obtain ⟨source, name⟩ := script
    have others := ih (session.handle source name).2
    rw [setup_handle] at others
    exact (session.chained_ended source name).append others

end Session

/-! ## Reading again -/

/-- A call to write that ends well has found a place for the file, and has put the text there. -/
theorem write_eq_ok {setup : Setup} {depth : Nat} {path text : String} {v : Value} {m m' : Machine}
    (succeeded : invoke setup depth (.native .write) [.text path, .text text] m = .ok v m') :
    ∃ found, m.host.target? setup.settings.directory path = some found ∧
      m'.site = { m.site with files := m.host.files.insert found (.file (Text.Utf8.encode text)) } := by
  cases depth with
  | zero => cases succeeded
  | succ depth => exact writeFile_ok succeeded

/-- Along a chain a text is read again with its line ends unified, if it was written before and
nothing else was written in its place since. -/
theorem Chained.read_back {setup : Setup} {s s' : Module.Site} {path text : String} {v : Value}
    {depth depth' : Nat} {m m₁ m' : Machine} {between later : List Config}
    (chained : Chained setup s (⟨depth, .invoke (.native .write) [.text path, .text text], m⟩ ::
      (between ++ ⟨depth' + 1, .invoke (.native .read) [.text path], m'⟩ :: later)) s')
    (succeeded : invoke setup depth (.native .write) [.text path, .text text] m = .ok v m₁)
    (untouched : ∀ c ∈ between, c.written? setup ≠ m.host.target? setup.settings.directory path) :
    invoke setup (depth' + 1) (.native .read) [.text path] m'
      = .ok (.text (String.ofList (Text.unifyNewlines text.toList))) m' := by
  obtain ⟨found, target, written⟩ := write_eq_ok succeeded
  obtain ⟨-, chained⟩ := chained.head rfl
  obtain ⟨s₁, meanwhile, chained⟩ := chained.split
  obtain ⟨rfl, -⟩ := chained.head rfl
  have left : (Config.finalState setup
      ⟨depth, .invoke (.native .write) [.text path, .text text], m⟩).site = m₁.site := by
    change (finalState (invoke setup depth (.native .write) [.text path, .text text]) m).site = _
    unfold finalState
    rw [succeeded]
  rw [left, written] at meanwhile
  rw [target] at untouched
  -- the write sets up what the read needs, and the calls in between preserve it
  have kept := meanwhile.preserves (Host.preserves_written target _) untouched
  exact readFile_ok (Host.read_of_preserves target kept)

/-- What a script has written it reads again, up to line ends. When a call to write has ended well,
a later call to read by the same path, wherever in the session it is made, yields the text that was
written with each of its line ends turned into a newline, provided that no call to write has reached
the same place in between. So it yields the text itself exactly if that has no carriage return. -/
theorem written_text_read_back (setup : Setup) (host : Host) (scripts : List (String × Option String))
    {path text : String} {v : Value} {depth depth' i j : Nat} {m m₁ m' : Machine}
    (written : ((Session.new setup host).chronicle scripts)[i]?
      = some ⟨depth, .invoke (.native .write) [.text path, .text text], m⟩)
    (succeeded : invoke setup depth (.native .write) [.text path, .text text] m = .ok v m₁)
    (read : ((Session.new setup host).chronicle scripts)[j]?
      = some ⟨depth' + 1, .invoke (.native .read) [.text path], m'⟩)
    (later : i < j)
    (untouched : ∀ (k : Nat) (c : Config), i < k → k < j →
      ((Session.new setup host).chronicle scripts)[k]? = some c →
        c.written? setup ≠ m.host.target? setup.settings.directory path) :
    invoke setup (depth' + 1) (.native .read) [.text path] m'
        = .ok (.text (String.ofList (Text.unifyNewlines text.toList))) m' ∧
      (String.ofList (Text.unifyNewlines text.toList) = text ↔ '\r' ∉ text.toList) := by
  refine ⟨?_, Text.ofList_unifyNewlines_iff text⟩
  have chained := (Session.new setup host).chained scripts
  generalize (Session.new setup host).chronicle scripts = ended at *
  obtain ⟨gap, rfl⟩ := Nat.exists_eq_add_of_le (Nat.succ_le_of_lt later)
  obtain ⟨hi, writing⟩ := List.getElem?_eq_some_iff.mp written
  obtain ⟨hj, reading⟩ := List.getElem?_eq_some_iff.mp read
  -- the two calls cut what has ended into three parts
  have rest : ended.drop (i + 1)
      = (ended.drop (i + 1)).take gap ++ ended[i + 1 + gap] :: ended.drop (i + 1 + gap + 1) := by
    have beyond : (ended.drop (i + 1)).drop gap = ended.drop (i + 1 + gap) := List.drop_drop
    rw [← List.drop_eq_getElem_cons hj, ← beyond, List.take_append_drop]
  have whole : ended = ended.take i ++ ended[i] :: ended.drop (i + 1) := by
    rw [← List.drop_eq_getElem_cons hi, List.take_append_drop]
  rw [whole, rest, writing, reading] at chained
  obtain ⟨s, -, chained⟩ := chained.split
  refine chained.read_back succeeded fun c member => ?_
  obtain ⟨k, hk, rfl⟩ := List.mem_iff_getElem.mp member
  rw [List.length_take, List.length_drop] at hk
  rw [List.getElem_take, List.getElem_drop]
  refine untouched (i + 1 + k) _ (by omega) (by omega) (List.getElem?_eq_getElem _)

/-- A script that writes a text with a carriage return, and reads it again. -/
def carriageReturn : String :=
  "_write(\"a\", \"1\r2\"); print _read(\"a\");"

/-- A setup that can read and write, and has no modules. -/
def Setup.filing : Setup :=
  ⟨{}, [], [.read, .write], ⟨8, 8⟩, Report.filled⟩

/-- The text is written with a carriage return and read with a newline. -/
theorem written_text_read_back_newline : ∃ (depth : Nat) (m : Machine),
    ((Session.new Setup.filing Host.bare).chronicle [(carriageReturn, none)])[8]?
      = some ⟨depth + 1, .invoke (.native .read) [.text "a"], m⟩ ∧
    invoke Setup.filing (depth + 1) (.native .read) [.text "a"] m = .ok (.text "1\n2") m := by
  have parsed : Program.ofSource false none carriageReturn
      = ([.expression (.call (.variable ⟨"_write", ⟨none, 1⟩⟩) ⟨none, 1⟩
            [.literal (.text "a"), .literal (.text "1\r2")]),
          .print (.call (.variable ⟨"_read", ⟨none, 1⟩⟩) ⟨none, 1⟩ [.literal (.text "a")])], []) := by
    cbv
  have script : (Session.new Setup.filing Host.bare).ended carriageReturn none
      = Program.chronicle Setup.filing _ (Session.new Setup.filing Host.bare).ready :=
    Session.ended_of_ofSource parsed
  have whole : (Session.new Setup.filing Host.bare).chronicle [(carriageReturn, none)]
      = Program.chronicle Setup.filing _ (Session.new Setup.filing Host.bare).ready :=
    (List.append_nil _).trans script
  obtain ⟨m, writes, wrote⟩ : ∃ m,
      ((Session.new Setup.filing Host.bare).chronicle [(carriageReturn, none)])[3]?
        = some ⟨6, .invoke (.native .write) [.text "a", .text "1\r2"], m⟩ ∧
      ∃ m₁, invoke Setup.filing 6 (.native .write) [.text "a", .text "1\r2"] m = .ok .nil m₁ := by
    rw [whole]
    with_unfolding_all exact ⟨_, rfl, _, rfl⟩
  obtain ⟨m', reads⟩ : ∃ m',
      ((Session.new Setup.filing Host.bare).chronicle [(carriageReturn, none)])[8]?
        = some ⟨5, .invoke (.native .read) [.text "a"], m'⟩ := by
    rw [whole]
    with_unfolding_all exact ⟨_, rfl⟩
  -- behind the call that writes no other one does
  have between : (((Session.new Setup.filing Host.bare).chronicle [(carriageReturn, none)]).map
      (Config.written? Setup.filing)).drop 4 = List.replicate 8 none := by
    rw [whole]
    decide +kernel
  have unwritten (k : Nat) (c : Config) (low : 3 < k)
      (entry : ((Session.new Setup.filing Host.bare).chronicle [(carriageReturn, none)])[k]? = some c) :
      c.written? Setup.filing = none := by
    have there : ((((Session.new Setup.filing Host.bare).chronicle [(carriageReturn, none)]).map
        (Config.written? Setup.filing)).drop 4)[k - 4]? = some (c.written? Setup.filing) := by
      rw [List.getElem?_drop, Nat.add_sub_cancel' low, List.getElem?_map, entry]
      rfl
    rw [between] at there
    exact List.eq_of_mem_replicate (List.mem_of_getElem? there)
  obtain ⟨m₁, wrote⟩ := wrote
  obtain ⟨found, target, -⟩ := write_eq_ok wrote
  obtain ⟨again, -⟩ := written_text_read_back Setup.filing Host.bare [(carriageReturn, none)] writes wrote
    reads (by decide) fun k c low _ entry => by
      rw [unwritten k c low entry, target]
      exact (Option.some_ne_none found).symm
  exact ⟨4, m', reads, again⟩

end ContractScript
