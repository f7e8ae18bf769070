/-
What stands behind does not change what is read.

A declaration that is read without a report is read in the same way if more tokens stand
behind it, unless the first of them is an `else` that it would take. `Repeats sequel n
closed p q` says this of a production: every quiet reading of `p` on fewer than `n` tokens
is repeated by `q` where `sequel` stands behind those tokens. Most productions look at the
token behind what they take; for these the reading is repeated only if it leaves a token
to look at. A production that is `closed` repeats every quiet reading, and one that
`Grasps` also takes a token in each of them, so that what runs before it has one to look
at. Two productions are compared, since repetitions are counted down from the number of
all tokens.

It follows that two programs that are well formed by themselves can be written one after
the other.
-/
import ContractScript.Proofs.Program.Dropping

set_option autoImplicit false

namespace ContractScript.Parser

open Grammar (StartsWith)

variable {α β : Type}

/-! ## Steps -/

theorem steady_acceptMap (f : Token → Option α) : Steady (acceptMap f) := by
  intro s
  rcases acceptMap_cases f s with ⟨t, rest, a, s₁, hs, -, run, hrest, hreports⟩ | ⟨-, run⟩
  · rw [run]
    exact ⟨by rw [hs, hrest]; exact List.suffix_cons t rest, Nat.le_of_eq (by rw [hreports])⟩
  · rw [run]
    exact State.Later.refl s

/-- A quiet reading takes a token. -/
def Takes (p : ParseM α) : Prop :=
  ∀ s a s₁, p s = .ok a s₁ → s₁.reports.length = s.reports.length → s₁.rest.length < s.rest.length

/-- A production takes a token if nothing that it reads is empty. -/
theorem Sound.takes {p : ParseM α} {L : Lang α} (h : ∀ n, Sound n p L)
    (nonempty : ∀ used after a, L used after a → used ≠ []) : Takes p := by
  intro s a s₁ run quiet
  obtain ⟨used, split, hL⟩ := (h (s.rest.length + 1)).reads s a s₁ (Nat.lt_succ_self _) run quiet
  have pos := List.length_pos_iff.mpr (nonempty used _ a hL)
  rw [split, List.length_append]
  omega

/-- A quiet sequence is made of two quiet parts. -/
theorem bind_quiet {x : ParseM α} {f : α → ParseM β} (hx : Steady x) (hf : ∀ a, Steady (f a))
    {s s₂ : State} {b : β} (run : (x >>= f) s = .ok b s₂)
    (quiet : s₂.reports.length = s.reports.length) :
    ∃ a s₁, x s = .ok a s₁ ∧ f a s₁ = .ok b s₂ ∧ s₁.reports.length = s.reports.length ∧
      s₂.reports.length = s₁.reports.length ∧ s.Later s₁ ∧ s₁.Later s₂ := by
  cases hr : x s with
  | error stop s₁ =>
    rw [bind_run_error hr] at run
    cases run
  | ok a s₁ =>
    rw [bind_run_ok hr] at run
    have first := hx.of_ok hr
    have second := (hf a).of_ok run
    have le := first.reports
    have le' := second.reports
    exact ⟨a, s₁, rfl, run, by omega, by omega, first, second⟩

theorem Takes.bind {x : ParseM α} {f : α → ParseM β} (h : Takes x) (hx : Steady x)
    (hf : ∀ a, Steady (f a)) : Takes (x >>= f) := by
  intro s b s₂ run quiet
  obtain ⟨a, s₁, hrun, -, hquiet, -, -, later⟩ := bind_quiet hx hf run quiet
  exact Nat.lt_of_le_of_lt later.rest.length_le (h s a s₁ hrun hquiet)

theorem Takes.bindLast {x : ParseM α} {f : α → ParseM β} (hx : Steady x) (hf : ∀ a, Steady (f a))
    (h : ∀ a, Takes (f a)) : Takes (x >>= f) := by
  intro s b s₂ run quiet
  obtain ⟨a, s₁, -, hrun, -, hquiet, later, -⟩ := bind_quiet hx hf run quiet
  exact Nat.lt_of_lt_of_le (h a s₁ b s₂ hrun hquiet) later.rest.length_le

theorem Takes.acceptMap {f : Token → Option α} {g : Option α → ParseM β}
    (hg : ∀ r, Steady (g r)) (h : Takes (g none)) : Takes (Parser.acceptMap f >>= g) := by
  intro s b s₂ run quiet
  rcases acceptMap_cases f s with ⟨t, rest, a, s₁, hs, -, found, hrest, hreports⟩ | ⟨-, found⟩
  · rw [bind_run_ok found] at run
    have shorter := ((hg (some a)).of_ok run).rest.length_le
    rw [hs, List.length_cons]
    rw [hrest] at shorter
    exact Nat.lt_succ_of_le shorter
  · rw [bind_run_ok found] at run
    exact h s b s₂ run quiet

/-! ## Repeated readings -/

/-- The same point of a reading, with a sequel behind the tokens that are left. -/
structure State.Ahead (sequel : List Token) (s s' : State) : Prop where
  rest : s'.rest = s.rest ++ sequel
  total : s.total ≤ s'.total

/-- Every quiet reading of `p` on fewer than `n` tokens is repeated by `q` where `sequel` stands
behind; unless `closed`, only a reading that leaves a token. -/
structure Repeats (sequel : List Token) (n : Nat) (closed : Bool) (p q : ParseM α) : Prop where
  steady : Steady p
  repeats : ∀ s a s₁ s', s.rest.length < n → p s = .ok a s₁ →
    s₁.reports.length = s.reports.length → (closed = true ∨ s₁.rest ≠ []) → s.Ahead sequel s' →
    ∃ s₁', q s' = .ok a s₁' ∧ s₁.Ahead sequel s₁' ∧ s₁'.reports = s'.reports

/-- Every quiet reading takes a token and is repeated. -/
structure Grasps (sequel : List Token) (n : Nat) (p q : ParseM α) : Prop
    extends Repeats sequel n true p q where
  takes : Takes p

variable {sequel : List Token} {n : Nat} {closed : Bool}

namespace Repeats

/-- Sequences in general. The second part has to cope with what the first one leaves, and where
the first one needs a token to look at, the second one has to see to it. -/
theorem bindWithin {m : Nat} {c : Bool} {x y : ParseM α} {f g : α → ParseM β}
    (hx : Repeats sequel n c x y) (hf : ∀ a, Repeats sequel m closed (f a) (g a))
    (leaves : ∀ s a s₁, x s = .ok a s₁ → s₁.reports.length = s.reports.length →
      s.rest.length < n → s₁.rest.length < m)
    (looks : ∀ a s b s₁, f a s = .ok b s₁ → s₁.reports.length = s.reports.length →
      (closed = true ∨ s₁.rest ≠ []) → c = true ∨ s.rest ≠ []) :
    Repeats sequel n closed (x >>= f) (y >>= g) := by
  have steady : ∀ a, Steady (f a) := fun a => (hf a).steady
  refine ⟨hx.steady.bind steady, fun s b s₂ s' hn run quiet left ahead => ?_⟩
  obtain ⟨a, s₁, hrun, hrun', hquiet, hquiet', -, -⟩ := bind_quiet hx.steady steady run quiet
  obtain ⟨s₁', first, ahead₁, still₁⟩ := hx.repeats s a s₁ s' hn hrun hquiet
    (looks a s₁ b s₂ hrun' hquiet' left) ahead
  obtain ⟨s₂', second, ahead₂, still₂⟩ := (hf a).repeats s₁ b s₂ s₁'
    (leaves s a s₁ hrun hquiet hn) hrun' hquiet' left ahead₁
  exact ⟨s₂', (bind_run_ok first).trans second, ahead₂, still₂.trans still₁⟩

/-- A first part leaves no more tokens than there were. -/
theorem leaves {c : Bool} {x y : ParseM α} (hx : Repeats sequel n c x y) (s : State) (a : α)
    (s₁ : State) (run : x s = .ok a s₁) (_ : s₁.reports.length = s.reports.length)
    (hn : s.rest.length < n) : s₁.rest.length < n :=
  Nat.lt_of_le_of_lt (hx.steady.of_ok run).rest.length_le hn

theorem bind {x y : ParseM α} {f g : α → ParseM β} (hx : Repeats sequel n closed x y)
    (hf : ∀ a, Repeats sequel n closed (f a) (g a)) :
    Repeats sequel n closed (x >>= f) (y >>= g) := by
  refine hx.bindWithin hf hx.leaves fun a s b s₁ run _ left => ?_
  refine left.imp id fun hne hnil => hne ?_
  exact List.suffix_nil.mp (hnil ▸ ((hf a).steady.of_ok run).rest)

theorem loosen {p q : ParseM α} (h : Repeats sequel n true p q) : Repeats sequel n closed p q :=
  ⟨h.steady, fun s a s₁ s' hn run quiet _ => h.repeats s a s₁ s' hn run quiet (.inl rfl)⟩

/-- A step that neither looks nor takes. -/
theorem pure (a : α) : Repeats sequel n closed (pure a) (pure a) := by
  refine ⟨fun s => State.Later.refl s, fun s b s₁ s' _ run _ _ ahead => ?_⟩
  cases run
  exact ⟨s', rfl, ahead, rfl⟩

/-- What has no quiet reading repeats every one. -/
theorem ofLoud {p q : ParseM α} (steady : Steady p)
    (loud : ∀ s a s₁, p s = .ok a s₁ → s₁.reports.length ≠ s.reports.length) :
    Repeats sequel n closed p q :=
  ⟨steady, fun s a s₁ _ _ run quiet => absurd quiet (loud s a s₁ run)⟩

theorem outOfLevels {q : ParseM α} : Repeats sequel n closed (throw .depth) q :=
  ofLoud (fun s => State.Later.refl s) fun _ _ _ run => by cases run

theorem ofSoundNothing {p q : ParseM α} (h : ∀ n, Sound n p (fun _ _ _ => False)) :
    Repeats sequel n closed p q := by
  refine ofLoud (h 0).steady fun s a s₁ run quiet => ?_
  obtain ⟨_, _, impossible⟩ := (h (s.rest.length + 1)).reads s a s₁ (Nat.lt_succ_self _) run quiet
  exact impossible

theorem fail (complaint : Complaint) {q : ParseM α} :
    Repeats sequel n closed (Parser.fail complaint) q :=
  ofSoundNothing fun _ => Sound.fail complaint

theorem complainAt (t : Token) (complaint : Complaint) {q : ParseM Unit} :
    Repeats sequel n closed (Parser.complainAt t complaint) q :=
  ofSoundNothing fun _ => Sound.complainAt t complaint

/-- Giving up after a report. -/
theorem giveUp (t : Token) (complaint : Complaint) {q : ParseM α} :
    Repeats sequel n closed (Parser.complainAt t complaint >>= fun _ => throw .fault) q :=
  ofSoundNothing fun _ => Sound.giveUp (complains_complainAt t complaint)

theorem complainUnless (holds : Bool) (t : Token) (complaint : Complaint) :
    Repeats sequel n closed (Parser.complainUnless holds t complaint)
      (Parser.complainUnless holds t complaint) := by
  unfold Parser.complainUnless
  split
  · exact .pure ()
  · exact .complainAt t complaint

theorem limitCount (complaint : Complaint) (count : Nat) :
    Repeats sequel n closed (Parser.limitCount complaint count)
      (Parser.limitCount complaint count) := by
  unfold Parser.limitCount
  split
  · exact .ofSoundNothing fun _ => Sound.complain complaint
  · exact .pure ()

/-! ### Looking at the next token -/

/-- A production that looks at the next token: with one token there it has to repeat what it does
then, and without one it may not be quiet, or has to be refused by the sequel. -/
theorem acceptMapWithin {f : Token → Option α} {g h : Option α → ParseM β}
    (hsome : ∀ a, Repeats sequel (n - 1) closed (g (some a)) (h (some a)))
    (hnone : Repeats sequel n closed (g none) (h none))
    (atEnd : ∀ s b s₁, s.rest = [] → g none s = .ok b s₁ → s₁.reports.length = s.reports.length →
      (closed = true ∨ s₁.rest ≠ []) → Refuses f sequel) :
    Repeats sequel n closed (Parser.acceptMap f >>= g) (Parser.acceptMap f >>= h) := by
  have steady : ∀ r, Steady (g r)
    | none => hnone.steady
    | some a => (hsome a).steady
  refine ⟨(steady_acceptMap f).bind steady, fun s b s₂ s' hn run quiet left ahead => ?_⟩
  rcases acceptMap_cases f s with ⟨t, rest, a, s₁, hs, hf, found, hrest, hreports⟩ | ⟨refuses, found⟩
  · -- the token that is taken stands first in front of the sequel as well
    obtain ⟨ts', total', bound', ending', reports'⟩ := s'
    obtain ⟨hts, htotal⟩ := ahead
    simp only [hs, List.cons_append] at hts
    subst hts
    have found' : Parser.acceptMap f ⟨t :: (rest ++ sequel), total', bound', ending', reports'⟩
        = taking (f t) ⟨t :: (rest ++ sequel), total', bound', ending', reports'⟩ := rfl
    rw [hf] at found'
    rw [bind_run_ok found] at run
    have shorter : s₁.rest.length < n - 1 := by
      rw [hs, List.length_cons] at hn
      rw [hrest]
      omega
    -- what has been read in all does not change when a token is taken
    have htotal₁ : s₁.total = s.total := by
      obtain ⟨ts, total, bound, ending, reports⟩ := s
      cases hs
      have here : Parser.acceptMap f ⟨t :: rest, total, bound, ending, reports⟩
          = taking (f t) ⟨t :: rest, total, bound, ending, reports⟩ := rfl
      rw [hf] at here
      cases here.symm.trans found
      rfl
    obtain ⟨s₂', again, ahead₂, still⟩ := (hsome a).repeats s₁ b s₂
      ⟨rest ++ sequel, total', Nat.le_of_succ_le bound', ending', reports'⟩ shorter run
      (by rw [hreports]; exact quiet) left ⟨by rw [hrest], htotal₁ ▸ htotal⟩
    exact ⟨s₂', (bind_run_ok found').trans again, ahead₂, still⟩
  · -- a token that is not taken is not taken in front of the sequel either
    rw [bind_run_ok found] at run
    have refused : Refuses f s'.rest := by
      rw [ahead.rest]
      cases hs : s.rest with
      | nil => exact atEnd s b s₂ hs run quiet left
      | cons t rest =>
        rintro u more hu
        cases hu
        exact refuses t rest hs
    obtain ⟨s₂', again, ahead₂, still⟩ := hnone.repeats s b s₂ s' hn run quiet left ahead
    rcases acceptMap_cases f s' with ⟨t, rest, a, _, hs', hf, -⟩ | ⟨-, found'⟩
    · rw [refused t rest hs'] at hf
      cases hf
    · exact ⟨s₂', (bind_run_ok found').trans again, ahead₂, still⟩

/-- Where a token is left at the end, there was one to look at before. -/
theorem acceptMap {f : Token → Option α} {g h : Option α → ParseM β}
    (hsome : ∀ a, Repeats sequel (n - 1) false (g (some a)) (h (some a)))
    (hnone : Repeats sequel n false (g none) (h none)) :
    Repeats sequel n false (Parser.acceptMap f >>= g) (Parser.acceptMap f >>= h) := by
  refine acceptMapWithin hsome hnone fun s b s₁ hs run _ left => ?_
  have none := (hnone.steady.of_ok run).rest
  rw [hs] at none
  exact absurd (List.suffix_nil.mp none) (left.resolve_left Bool.false_ne_true)

theorem accept {kind : Token.Kind} {g h : Option Token → ParseM β}
    (hsome : ∀ t, Repeats sequel (n - 1) false (g (some t)) (h (some t)))
    (hnone : Repeats sequel n false (g none) (h none)) :
    Repeats sequel n false (Parser.accept kind >>= g) (Parser.accept kind >>= h) :=
  acceptMap hsome hnone

theorem accepted {kind : Token.Kind} {g h : Bool → ParseM β}
    (hyes : Repeats sequel (n - 1) false (g true) (h true))
    (hno : Repeats sequel n false (g false) (h false)) :
    Repeats sequel n false (Parser.accepted kind >>= g) (Parser.accepted kind >>= h) := by
  rw [accepted_bind, accepted_bind]
  exact accept (fun _ => hyes) hno

/-- The step that looks at the next token sees the same one. -/
theorem current? {g h : Option Token → ParseM β} (hg : Steady (g none))
    (hsome : ∀ t, Repeats sequel n false (g (some t)) (h (some t))) :
    Repeats sequel n false (Parser.current? >>= g) (Parser.current? >>= h) := by
  have run : ∀ (k : Option Token → ParseM β) (s : State),
      (Parser.current? >>= k) s = k s.rest.head? s := fun _ _ => rfl
  refine ⟨fun s => ?_, fun s b s₁ s' hn hrun quiet left ahead => ?_⟩
  · rw [run]
    cases s.rest.head? with
    | none => exact hg s
    | some t => exact (hsome t).steady s
  · rw [run] at hrun
    rw [run, ahead.rest]
    cases hs : s.rest with
    | nil =>
      rw [hs] at hrun
      have none := (hg.of_ok hrun).rest
      rw [hs] at none
      exact absurd (List.suffix_nil.mp none) (left.resolve_left Bool.false_ne_true)
    | cons t rest =>
      rw [hs] at hrun
      exact (hsome t).repeats s b s₁ s' hn hrun quiet left ahead

theorem check (kind : Token.Kind) :
    Repeats sequel n false (Parser.check kind) (Parser.check kind) :=
  current? (fun s => State.Later.refl s) fun t => .pure (t.kind == kind)

/-- The number of all tokens bounds those that are left, on both sides. -/
theorem total {f g : Nat → ParseM β}
    (h : ∀ m m', m ≤ m' → Repeats sequel (m + 1) closed (f m) (g m')) :
    Repeats sequel n closed (Parser.total >>= f) (Parser.total >>= g) := by
  have run : ∀ (k : Nat → ParseM β) (s : State), (Parser.total >>= k) s = k s.total s :=
    fun _ _ => rfl
  refine ⟨fun s => ?_, fun s b s₁ s' _ hrun quiet left ahead => ?_⟩
  · rw [run]
    exact (h s.total s.total (Nat.le_refl _)).steady s
  · rw [run] at hrun
    rw [run]
    exact (h s.total s'.total ahead.total).repeats s b s₁ s' (Nat.lt_succ_of_le s.rest_le) hrun
      quiet left ahead

/-- Without rounds there are no tokens, so only moving forward is left to show. -/
theorem noRounds {p q : ParseM α} (h : Steady p) : Repeats sequel 0 closed p q :=
  ⟨h, fun _ _ _ _ hn => absurd hn (Nat.not_lt_zero _)⟩

/-- Without tokens none can be left. -/
theorem noTokens {p q : ParseM α} (h : Steady p) : Repeats sequel 1 false p q := by
  refine ⟨h, fun s a s₁ _ hn run _ left => ?_⟩
  have none : s.rest = [] := List.length_eq_zero_iff.mp (Nat.lt_one_iff.mp hn)
  have suffix := (h.of_ok run).rest
  rw [none] at suffix
  exact absurd (List.suffix_nil.mp suffix) (left.resolve_left Bool.false_ne_true)

end Repeats

namespace Grasps

variable {x y : ParseM α} {f g : α → ParseM β}

theorem any (h : Grasps sequel n x y) : Repeats sequel n closed x y :=
  h.toRepeats.loosen

/-- What takes a token lets the part before it look at that token. -/
theorem after (hx : Repeats sequel n false x y) (hf : ∀ a, Grasps sequel n (f a) (g a)) :
    Grasps sequel n (x >>= f) (y >>= g) := by
  refine ⟨hx.bindWithin (fun a => (hf a).toRepeats) hx.leaves fun a s b s₁ run quiet _ => ?_,
    Takes.bindLast hx.steady (fun a => (hf a).steady) fun a => (hf a).takes⟩
  have shorter := (hf a).takes s b s₁ run quiet
  exact .inr fun hnil => by
    rw [hnil] at shorter
    exact Nat.not_lt_zero _ shorter

theorem bind (hx : Grasps sequel n x y) (hf : ∀ a, Repeats sequel n true (f a) (g a)) :
    Grasps sequel n (x >>= f) (y >>= g) :=
  ⟨hx.toRepeats.bind hf, hx.takes.bind hx.steady fun a => (hf a).steady⟩

/-- A first part that takes tokens leaves fewer for the second. -/
theorem bindFewer (hx : Grasps sequel n x y)
    (hf : ∀ a, Repeats sequel (n - 1) closed (f a) (g a)) :
    Repeats sequel n closed (x >>= f) (y >>= g) := by
  refine hx.toRepeats.bindWithin hf (fun s a s₁ run quiet hn => ?_) fun _ _ _ _ _ _ _ => .inl rfl
  have shorter := hx.takes s a s₁ run quiet
  omega

theorem acceptMap {f : Token → Option α} {g h : Option α → ParseM β}
    (hsome : ∀ a, Repeats sequel (n - 1) true (g (some a)) (h (some a)))
    (hnone : Grasps sequel n (g none) (h none)) :
    Grasps sequel n (Parser.acceptMap f >>= g) (Parser.acceptMap f >>= h) := by
  refine ⟨Repeats.acceptMapWithin hsome hnone.toRepeats fun s b s₁ hs run quiet _ => ?_,
    Takes.acceptMap (fun r => ?_) hnone.takes⟩
  · have shorter := hnone.takes s b s₁ run quiet
    rw [hs] at shorter
    exact absurd shorter (Nat.not_lt_zero _)
  · cases r with
    | none => exact hnone.steady
    | some a => exact (hsome a).steady

theorem accept {kind : Token.Kind} {g h : Option Token → ParseM β}
    (hsome : ∀ t, Repeats sequel (n - 1) true (g (some t)) (h (some t)))
    (hnone : Grasps sequel n (g none) (h none)) :
    Grasps sequel n (Parser.accept kind >>= g) (Parser.accept kind >>= h) :=
  acceptMap hsome hnone

theorem accepted {kind : Token.Kind} {g h : Bool → ParseM β}
    (hyes : Repeats sequel (n - 1) true (g true) (h true))
    (hno : Grasps sequel n (g false) (h false)) :
    Grasps sequel n (Parser.accepted kind >>= g) (Parser.accepted kind >>= h) := by
  rw [accepted_bind, accepted_bind]
  exact accept (fun _ => hyes) hno

theorem outOfLevels {q : ParseM α} : Grasps sequel n (throw .depth) q :=
  ⟨.outOfLevels, fun _ _ _ run => by cases run⟩

theorem expect (kind : Token.Kind) (what : String) :
    Grasps sequel n (Parser.expect kind what) (Parser.expect kind what) :=
  accept (fun t => .pure t)
    ⟨.fail _, Sound.takes (L := fun _ _ _ => False) (fun _ => Sound.fail _) fun _ _ _ h => h.elim⟩

theorem total {f g : Nat → ParseM β}
    (h : ∀ m m', m ≤ m' → Grasps sequel (m + 1) (f m) (g m')) :
    Grasps sequel n (Parser.total >>= f) (Parser.total >>= g) :=
  ⟨.total fun m m' le => (h m m' le).toRepeats, fun s b s₁ run quiet =>
    (h s.total s.total (Nat.le_refl _)).takes s b s₁ run quiet⟩

/-- Recovery happens after a report, so it adds no quiet reading. -/
theorem recovering {p q : ParseM (Option Stmt)} (h : Grasps sequel n p q) :
    Grasps sequel n (Parser.recovering p) (Parser.recovering q) := by
  -- a quiet run has not recovered, since a fault would have been reported
  have quietly : ∀ s r s₁, Parser.recovering p s = .ok r s₁ →
      s₁.reports.length = s.reports.length → p s = .ok r s₁ := by
    intro s r s₁ run quiet
    rw [recovering_run] at run
    cases hp : p s with
    | ok r' s' =>
      rw [hp] at run
      exact run
    | error stop s' =>
      rw [hp] at run
      cases stop with
      | depth => cases run
      | fault =>
        have reported := h.steady.of_fault hp
        cases run
        exact absurd quiet (Nat.ne_of_gt reported)
  have steady : Steady (Parser.recovering p) :=
    (Sound.recovering (L := fun _ _ _ => True) (n := 0) ⟨h.steady, fun _ _ _ hn =>
      absurd hn (Nat.not_lt_zero _)⟩).steady
  refine ⟨⟨steady, fun s r s₁ s' hn run quiet left ahead => ?_⟩, fun s r s₁ run quiet =>
    h.takes s r s₁ (quietly s r s₁ run quiet) quiet⟩
  obtain ⟨s₁', again, ahead₁, still⟩ :=
    h.repeats s r s₁ s' hn (quietly s r s₁ run quiet) quiet left ahead
  exact ⟨s₁', by rw [recovering_run, again], ahead₁, still⟩

end Grasps

end ContractScript.Parser
