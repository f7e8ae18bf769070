/-
A seal holds from the import on.

What runs when the sealed scope is there already breaks no seal, by induction on the levels.
What was under way when the scope was made is settled along the way to the import: each
evaluation on that way puts one question during which the scope is made, questions before it,
whose answers end when the scope is not there yet, and questions after it, which find the
scope there. So wherever a session gets to after an import has set a seal, the scope is as it was
when that ended.
-/
import ContractScript.Proofs.Run.Guarding
import ContractScript.Proofs.Run.TestResults

set_option autoImplicit false

namespace ContractScript

open EvalM Course

namespace Seal

/-- Code may run, and the sealed scope is there. -/
structure Stands (σ : Seal) (tame : Prop) (m : Machine) : Prop where
  sound : σ.Sound tame m
  rooted : m.store.Rooted σ.scope

/-- An evaluation, typically an import, sets a seal: the scope is not there when it starts, and
the seal holds when it ends. -/
structure SetBy (σ : Seal) (setup : Setup) (i : Config) : Prop where
  early : i.machine.store.scopes.size ≤ σ.scope
  rooted : (i.finalState setup).store.Rooted σ.scope
  holds : σ.Holds (i.finalState setup).store

section States

variable {σ : Seal} {tame tame' : Prop} {m m' : Machine}

theorem Sound.placed (h : σ.Sound tame m) : m.Placed :=
  ⟨h.nested, h.safe.1⟩

theorem Stands.weaken (h : σ.Stands tame m) (imp : tame → tame') : σ.Stands tame' m :=
  ⟨h.sound.weaken imp, h.rooted⟩

theorem Stands.leads (h : σ.Stands tame m) (leads : σ.Leads m m') : σ.Stands tame m' :=
  ⟨h.sound.leads leads, h.rooted.grown leads.grown⟩

theorem Stands.holds (h : σ.Stands tame m) : σ.Holds m.store :=
  h.sound.intact h.rooted

theorem Stands.of_shape (h : σ.Stands tame m) (same : shape m' = shape m) : σ.Stands tame m' :=
  h.leads (h.sound.of_shape same)

/-- As long as the scope is not there, nothing can go wrong with it. -/
theorem intact_of_early {s : Store} (early : s.scopes.size ≤ σ.scope) : σ.Intact s :=
  fun rooted => absurd rooted.1 (Nat.not_lt_of_le early)

theorem sound_of_early (placed : m.Placed) (early : m.store.scopes.size ≤ σ.scope) :
    σ.Sound tame m where
  nested := placed.nested
  intact := intact_of_early early
  safe := safe_of_early placed.nested placed.scope (Nat.lt_of_lt_of_le placed.scope early)

end States

/-! ## When the scope is there -/

section Later

variable {σ : Seal} {setup : Setup}

/-- No evaluation breaks a seal. -/
theorem leads (σ : Seal) (setup : Setup) (depth : Nat) : ∀ (task : Task) (m : Machine),
    σ.Stands (task.spares σ.kept = true) m → σ.Leads m (Config.finalState setup ⟨depth, task, m⟩) := by
  induction depth with
  | zero =>
    intro task m stands
    cases task <;> exact stands.sound.of_shape rfl
  | succ depth ih =>
    intro task m stands
    have stages := task.stages (settled setup depth) stands.sound.placed
    refine (task.guards (fun _ => Nat.ne_of_gt stands.rooted.1) stands.sound fun q member asked => ?_).2
    exact ih q.task q.machine ⟨asked, stands.rooted.grown (stages.around member).1.grown⟩

/-- What an evaluation asks for may run as well. -/
theorem Stands.asks {c c' : Config} {link : Link} (h : σ.Stands (c.task.spares σ.kept = true) c.machine)
    (asks : Asks setup c link c') : σ.Stands (c'.task.spares σ.kept = true) c'.machine := by
  obtain ⟨depth, task, m⟩ := c
  have asked := Config.mem_asked.mpr asks
  unfold Config.asked at asked
  cases depth with
  | zero => exact absurd asked List.not_mem_nil
  | succ depth =>
    obtain ⟨q, member, same⟩ := List.mem_map.mp asked
    cases same
    have stages := task.stages (settled setup depth) h.sound.placed
    have grown {q : Question} (member : q ∈ task.course setup depth m) :=
      (stages.around member).1.grown
    refine ⟨(task.guards (fun _ => Nat.ne_of_gt h.rooted.1) h.sound ?_).1 q member,
      h.rooted.grown (grown member)⟩
    exact fun p member asked => σ.leads setup depth p.task p.machine ⟨asked, h.rooted.grown (grown member)⟩

theorem Stands.trail {c c' : Config} {links : List Link}
    (h : σ.Stands (c.task.spares σ.kept = true) c.machine) (trail : Trail setup c links c') :
    σ.Stands (c'.task.spares σ.kept = true) c'.machine := by
  induction trail with
  | here => exact h
  | step asks _ ih => exact ih (h.asks asks)

end Later

/-! ## Around the import -/

/-- An evaluation that ends with a seal intact. -/
theorem Leads.of_ended {σ : Seal} {setup : Setup} (c : Config) (placed : c.machine.Placed)
    (intact : σ.Intact (c.finalState setup).store) : σ.Leads c.machine (c.finalState setup) := by
  obtain ⟨depth, task, m⟩ := c
  have before := settled setup depth task m placed
  refine ⟨before.grown, before.placed.nested, intact, ?_⟩
  have kept := evaluationKeeps setup depth
  have same : (Config.finalState setup ⟨depth, task, m⟩).surroundings = m.surroundings := by
    cases task with
    | evaluate e => exact kept.evaluate e m
    | call place f arguments => exact kept.callValue place f arguments m
    | invoke f arguments => exact kept.invoke f arguments m
    | execute s => exact kept.execute s m
    | load path place space => exact kept.importModule path place space m
  exact congrArg Surroundings.scope same

end Seal

/-- The questions of an import under a name are put when its scope is there. -/
theorem Asks.makesRoot {setup : Setup} {c c' : Config} {link : Link} (asks : Asks setup c link c')
    (makes : c.task.makesRoot = true) (placed : c.machine.Placed) :
    c.machine.store.scopes.size < c'.machine.store.scopes.size := by
  cases asks with
  | @declaration depth path place space source program target s m m₁ m₂ m₃ m₄ m₅ m' found traced read
      made entered reached =>
    obtain ⟨name, rfl⟩ := Option.isSome_iff_exists.mp makes
    obtain ⟨-, -, rfl⟩ := findModule_ok found
    have traces : m₂.outline = m₁.outline := (Keeps.trace setup _).of_ok traced
    have reads : m₃.outline = Machine.outline { m₂ with importing := source.name :: m₂.importing } :=
      (Keeps.moduleDeclarations _ _ _).of_ok read
    have enters : m₅.outline = m₄.outline := by
      refine Keeps.of_ok ?_ entered
      cases source.directory with
      | none => exact .pure _
      | some dir => exact .modify fun _ => rfl
    have size {m m' : Machine} (same : m'.outline = m.outline) :
        m'.store.scopes.size = m.store.scopes.size := Store.size_of_outline (congrArg Prod.fst same)
    have placed₃ : m₃.Placed := (Machine.Before.of_outline placed (reads.trans traces)).placed
    -- the scope is made here
    obtain ⟨id, m, ran, before, there⟩ := importTarget_before setup (some name) placed₃
    have made' := made
    rw [ran] at made'
    cases made'
    have more : m₄.store.scopes.size = m₃.store.scopes.size + 1 := by
      cases made
      exact Array.size_modify.trans (Array.size_push _)
    have placed₅ : m₅.Placed := (Machine.Before.of_outline before.placed enters).placed
    have inside : target < m₅.store.scopes.size := by
      rw [size enters]
      exact there
    have stages := (Spans.traversal (settled setup depth) 0).statements .inner program
      { m₅ with scope := target } (Nat.zero_le _) (placed₅.inScope inside).placed
    have asked : (⟨.inner, .execute s, m'⟩ : Question) ∈
        statements setup depth .inner program { m₅ with scope := target } :=
      mem_statements.mpr ⟨s, m', reached, rfl⟩
    have further := (stages.around asked).1.grown.size_le
    have same : m₃.store.scopes.size = m₁.store.scopes.size := size (reads.trans traces)
    have grew : m₅.store.scopes.size = m₁.store.scopes.size + 1 := by
      rw [size enters, more, same]
    exact Nat.lt_of_lt_of_le (Nat.lt_of_lt_of_eq (Nat.lt_succ_self _) grew.symm) further
  | _ => cases makes

namespace Seal

section Around

variable {σ : Seal} {setup : Setup}

/-- The questions of an evaluation are in order around each of them: a seal that is set during one
is not broken by the others. -/
theorem around_question {depth : Nat} {task : Task} {m : Machine} {q : Question}
    {earlier later : List Question} (placed : m.Placed)
    (asks : task.course setup depth m = earlier ++ q :: later)
    (early : q.machine.store.scopes.size ≤ σ.scope)
    (apart : task.makesRoot = true → m.store.scopes.size ≠ σ.scope)
    (rooted : (q.ended setup depth).store.Rooted σ.scope)
    (intact : σ.Intact (q.ended setup depth).store) :
    (∀ p ∈ later, σ.Stands (p.task.spares σ.kept = true) p.machine) ∧
      (Config.finalState setup ⟨depth + 1, task, m⟩).store.Rooted σ.scope ∧
      σ.Intact (Config.finalState setup ⟨depth + 1, task, m⟩).store := by
  have stages := task.stages (settled setup depth) placed
  rw [asks] at stages
  have member : q ∈ earlier ++ q :: later := List.mem_append_right _ List.mem_cons_self
  obtain ⟨starts, -, ends⟩ := stages.around member
  obtain ⟨before, after⟩ := stages.order
  have there (p : Question) (member : p ∈ later) : p.machine.store.Rooted σ.scope :=
    rooted.grown (after p member).grown
  -- in front of the question the scope is not there, and behind it it is sealed
  have answered : ∀ p ∈ task.course setup depth m, σ.Answered setup depth p := by
    intro p member' asked
    rw [asks] at member'
    rcases List.mem_append.mp member' with member' | member'
    · -- the scope is not there when the answer ends
      have less := Nat.le_trans (before p member').grown.size_le early
      exact .of_ended ⟨depth, p.task, p.machine⟩ asked.placed (intact_of_early less)
    · rcases List.mem_cons.mp member' with rfl | member'
      · exact .of_ended ⟨depth, p.task, p.machine⟩ asked.placed intact
      · exact σ.leads setup depth p.task p.machine ⟨asked, there p member'⟩
  have less := Nat.le_trans starts.grown.size_le early
  obtain ⟨asked, whole⟩ := task.guards apart (sound_of_early placed less) answered
  refine ⟨fun p member' => ⟨asked p ?_, there p member'⟩, rooted.grown ends.grown, whole.intact⟩
  rw [asks]
  exact List.mem_append_right _ (List.mem_cons_of_mem _ member')

theorem around_asked {c c₀ : Config} {link : Link} {earlier later : List (Link × Config)}
    (placed : c.machine.Placed) (asked : c.asked setup = earlier ++ (link, c₀) :: later)
    (early : c₀.machine.store.scopes.size ≤ σ.scope)
    (rooted : (c₀.finalState setup).store.Rooted σ.scope)
    (intact : σ.Intact (c₀.finalState setup).store) :
    (∀ p ∈ later, σ.Stands (p.2.task.spares σ.kept = true) p.2.machine) ∧
      (c.finalState setup).store.Rooted σ.scope ∧ σ.Intact (c.finalState setup).store := by
  have asks : Asks setup c link c₀ := by
    refine Config.mem_asked.mp ?_
    rw [asked]
    exact List.mem_append_right _ List.mem_cons_self
  have apart : c.task.makesRoot = true → c.machine.store.scopes.size ≠ σ.scope :=
    fun makes => Nat.ne_of_lt (Nat.lt_of_lt_of_le (asks.makesRoot makes placed) early)
  obtain ⟨depth, task, m⟩ := c
  unfold Config.asked at asked
  cases depth with
  | zero => exact absurd asked (List.append_ne_nil_of_right_ne_nil _ (List.cons_ne_nil _ _)).symm
  | succ depth =>
    obtain ⟨before, rest, split, -, asked⟩ := List.map_eq_append_iff.mp asked
    obtain ⟨q, after, rfl, same, rfl⟩ := List.map_eq_cons_iff.mp asked
    cases same
    obtain ⟨stands, whole⟩ := around_question placed split early apart rooted intact
    refine ⟨fun p member => ?_, whole⟩
    obtain ⟨q', member', rfl⟩ := List.mem_map.mp member
    exact stands q' member'

/-- An evaluation on the way to the import that sets a seal is over when the seal holds. -/
theorem SetBy.trail {i c : Config} {links : List Link} (set : σ.SetBy setup i)
    (trail : Trail setup c links i) (placed : c.machine.Placed) :
    (c.finalState setup).store.Rooted σ.scope ∧ σ.Intact (c.finalState setup).store := by
  induction trail with
  | here => exact ⟨set.rooted, fun _ => set.holds⟩
  | step asks further ih =>
    have placed₁ := (asks.within placed).1.placed
    obtain ⟨rooted, intact⟩ := ih set placed₁
    have early := Nat.le_trans (further.within placed₁).1.grown.size_le set.early
    obtain ⟨earlier, later, asked⟩ := List.append_of_mem (Config.mem_asked.mpr asks)
    exact (around_asked placed asked early rooted intact).2

/-- Where an evaluation is reached after the import that sets a seal. -/
theorem SetBy.past {i c c' : Config} {ended : List Config} (set : σ.SetBy setup i)
    (past : Past setup c ended c') (member : i ∈ ended) (placed : c.machine.Placed) :
    σ.Stands (c'.task.spares σ.kept = true) c'.machine := by
  induction past with
  | here => exact absurd member List.not_mem_nil
  | @step c c₁ c' link earlier later ended asked further ih =>
    have asks {p : Link × Config} (member : p ∈ earlier ++ (link, c₁) :: later) :
        Asks setup c p.1 p.2 := Config.mem_asked.mp (asked ▸ member)
    rcases List.mem_append.mp member with member | member
    · obtain ⟨⟨link₀, c₀⟩, member₀, member⟩ := List.mem_flatMap.mp member
      obtain ⟨links, trail⟩ := Config.mem_chronicle.mp member
      have placed₀ := ((asks (List.mem_append_left _ member₀)).within placed).1.placed
      obtain ⟨rooted, intact⟩ := set.trail trail placed₀
      have early := Nat.le_trans (trail.within placed₀).1.grown.size_le set.early
      obtain ⟨links', trail'⟩ : ∃ links', Trail setup c₁ links' c' := by
        refine Config.mem_chronicle.mp (further.prefix_chronicle.subset ?_)
        exact List.mem_append_right _ (Config.mem_chronicle.mpr ⟨[], .here⟩)
      obtain ⟨before, between, rfl⟩ := List.append_of_mem member₀
      rw [List.append_assoc, List.cons_append] at asked
      have stands := (around_asked placed asked early rooted intact).1 (link, c₁)
        (List.mem_append_right _ List.mem_cons_self)
      exact stands.trail trail'
    · exact ih member ((asks (List.mem_append_right _ List.mem_cons_self)).within placed).1.placed

end Around

/-! ## Scripts -/

section Scripts

variable {σ : Seal} {setup : Setup}

theorem Stands.runTop {m : Machine} (h : σ.Stands False m) (s : Stmt) :
    σ.Stands False (finalState (runTop setup s) m) := by
  have ended := h.leads (σ.leads setup setup.limits.depth s.topTask m (h.weaken nofun))
  exact ended.of_shape (view_runTop setup s m)

theorem Stands.runAll {m : Machine} (h : σ.Stands False m) (last : Value) (program : Program) :
    σ.Stands False (finalState (runAll setup last program) m) := by
  induction program generalizing last m with
  | nil => exact h
  | cons s rest ih =>
    have first : σ.Stands False (finalState (ContractScript.runTop setup s) m) := h.runTop s
    rw [ContractScript.runAll, finalState_bind]
    unfold finalState at first
    cases ran : ContractScript.runTop setup s m with
    | ok v m₁ =>
      rw [ran] at first
      exact ih first v
    | error e m₁ =>
      rw [ran] at first
      exact first

/-- Where a script gets to that finds the sealed scope. -/
theorem Stands.reaches {m : Machine} (h : σ.Stands False m) {program : Program} {ended : List Config}
    {c : Config} (reaches : program.Reaches setup m ended c) :
    σ.Stands (c.task.spares σ.kept = true) c.machine := by
  induction reaches with
  | first past =>
    have reached := past.prefix_chronicle.subset
      (List.mem_append_right _ (Config.mem_chronicle.mpr ⟨[], .here⟩))
    obtain ⟨links, trail⟩ := Config.mem_chronicle.mp reached
    exact Stands.trail (h.weaken nofun) trail
  | @later s rest m m₁ v ended c ran _ ih =>
    have first : σ.Stands False (finalState (ContractScript.runTop setup s) m) := h.runTop s
    unfold finalState at first
    rw [ran] at first
    exact ih first

section Setting

variable {i : Config} (set : σ.SetBy setup i)
include set

theorem SetBy.runTop {m : Machine} {s : Stmt} {links : List Link}
    (trail : Trail setup (.top setup s m) links i) (placed : m.Placed) :
    σ.Stands False (finalState (runTop setup s) m) := by
  obtain ⟨rooted, intact⟩ := set.trail trail placed
  have less := Nat.le_trans (trail.within placed).1.grown.size_le set.early
  have whole := Leads.of_ended (.top setup s m) placed intact
  have ended : σ.Stands False (Config.finalState setup (.top setup s m)) :=
    ⟨(sound_of_early placed less).leads whole, rooted⟩
  exact ended.of_shape (view_runTop setup s m)

theorem SetBy.runAll {m : Machine} {program : Program} (member : i ∈ program.chronicle setup m)
    (placed : m.Placed) (last : Value) :
    σ.Stands False (finalState (runAll setup last program) m) := by
  induction program generalizing last m with
  | nil => exact absurd member List.not_mem_nil
  | cons s rest ih =>
    have placed₁ := (spans_runTop setup s m (Nat.zero_le _) placed).before.placed
    rw [Program.chronicle, List.mem_append] at member
    rw [ContractScript.runAll, finalState_bind]
    -- the seal is set in the first statement, or in one behind it
    rcases member with member | member
    · obtain ⟨links, trail⟩ := Config.mem_chronicle.mp member
      have first := set.runTop trail placed
      unfold finalState at first
      cases ran : ContractScript.runTop setup s m with
      | ok v m₁ =>
        rw [ran] at first
        exact first.runAll v rest
      | error e m₁ =>
        rw [ran] at first
        exact first
    · unfold finalState at placed₁
      cases ran : ContractScript.runTop setup s m with
      | ok v m₁ =>
        rw [ran] at member placed₁
        exact ih member placed₁ v
      | error e m₁ =>
        rw [ran] at member
        exact absurd member List.not_mem_nil

theorem SetBy.reaches {m : Machine} {program : Program} {ended : List Config} {c : Config}
    (reaches : program.Reaches setup m ended c) (member : i ∈ ended) (placed : m.Placed) :
    σ.Stands (c.task.spares σ.kept = true) c.machine := by
  induction reaches with
  | first past => exact set.past past member placed
  | @later s rest m m₁ v ended c ran further ih =>
    rcases List.mem_append.mp member with member | member
    · obtain ⟨links, trail⟩ := Config.mem_chronicle.mp member
      have first := set.runTop trail placed
      unfold finalState at first
      rw [ran] at first
      exact first.reaches further
    · have placed₁ := (spans_runTop setup s m (Nat.zero_le _) placed).before.placed
      unfold finalState at placed₁
      rw [ran] at placed₁
      exact ih member placed₁

end Setting

end Scripts

/-! ## Sessions -/

section Sessions

variable {σ : Seal}

/-- A script leaves the scopes and functions as running its program did. -/
theorem shape_handle (session : Session) (source : String) (name : Option String) :
    (∃ program, Program.ofSource session.setup.settings.testMode (name <|> session.file) source
        = (program, []) ∧ shape (session.handle source name).2.machine
          = shape (finalState (runAll session.setup .nil program) session.ready)) ∨
      (session.ended source name = [] ∧
        shape (session.handle source name).2.machine = shape session.machine) := by
  unfold Session.handle Session.ended
  dsimp only
  cases read : Program.ofSource session.setup.settings.testMode (name <|> session.file) source with
  | mk program diagnostics =>
    cases diagnostics with
    | nil =>
      refine .inl ⟨program, rfl, ?_⟩
      exact (Session.view_runProgram _ _ _).trans (Session.view_interpret (fun _ _ => rfl) _ _ _ _)
    | cons d rest => exact .inr ⟨rfl, rfl⟩

theorem Stands.handle {session : Session} (h : σ.Stands False session.machine) (source : String)
    (name : Option String) : σ.Stands False (session.handle source name).2.machine := by
  rcases shape_handle session source name with ⟨program, -, same⟩ | ⟨-, same⟩
  · have ready : σ.Stands False session.ready := h.of_shape rfl
    exact (ready.runAll .nil program).of_shape same
  · exact h.of_shape same

theorem Stands.after {session : Session} (h : σ.Stands False session.machine)
    (scripts : List (String × Option String)) : σ.Stands False (session.after scripts).machine := by
  induction scripts generalizing session with
  | nil => exact h
  | cons script rest ih => exact ih (h.handle script.1 script.2)

theorem SetBy.handle {session : Session} {i : Config} (set : σ.SetBy session.setup i)
    (placed : session.machine.Placed) {source : String} {name : Option String}
    (member : i ∈ session.ended source name) :
    σ.Stands False (session.handle source name).2.machine := by
  have ready : session.ready.Placed := ⟨placed.nested, placed.scope⟩
  rcases shape_handle session source name with ⟨program, read, same⟩ | ⟨none, -⟩
  · rw [Session.ended_of_ofSource read] at member
    exact (set.runAll member ready .nil).of_shape same
  · rw [none] at member
    exact absurd member List.not_mem_nil

theorem SetBy.chronicle {session : Session} {i : Config} (set : σ.SetBy session.setup i)
    (placed : session.machine.Placed) {scripts : List (String × Option String)}
    (member : i ∈ session.chronicle scripts) : σ.Stands False (session.after scripts).machine := by
  obtain ⟨earlier, source, name, later, rfl, here⟩ := Session.mem_chronicle.mp member
  unfold Session.after
  rw [List.foldl_append, List.foldl_cons]
  have same := Session.setup_after session earlier
  have there := Session.placed_after placed earlier
  refine Stands.after (SetBy.handle ?_ there here) later
  rw [same]
  exact set

/-- Wherever a session gets to after an import has set a seal, the seal holds. -/
theorem SetBy.session {setup : Setup} {host : Host} {i c : Config} (set : σ.SetBy setup i)
    {scripts : List (String × Option String)} {source : String} {name : Option String}
    {ended : List Config}
    (reaches : ((Session.new setup host).after scripts).Reaches source name ended c)
    (member : i ∈ (Session.new setup host).chronicle scripts ++ ended) :
    σ.Stands (c.task.spares σ.kept = true) c.machine := by
  obtain ⟨program, -, reaches⟩ := reaches
  have placed := Session.placed_new setup host
  have same : ((Session.new setup host).after scripts).setup = setup := Session.setup_after _ _
  rw [same] at reaches
  rcases List.mem_append.mp member with member | member
  · have between : σ.Stands False ((Session.new setup host).after scripts).machine :=
      SetBy.chronicle set placed member
    have ready : σ.Stands False ((Session.new setup host).after scripts).ready := between.of_shape rfl
    exact ready.reaches reaches
  · have there := Session.placed_after placed scripts
    have ready : ((Session.new setup host).after scripts).ready.Placed := ⟨there.nested, there.scope⟩
    exact set.reaches reaches member ready

end Sessions

end Seal

end ContractScript
