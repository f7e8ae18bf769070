/-
A fault stays in its statement.

A stretch of tokens is `Barred` if its last token is its only semicolon, it has no opening
brace, no loop starts it and no word that starts a statement stands behind its first
token. A declaration that is read there does the same whatever stands behind it, reports
and faults included. It cannot look past the semicolon: nothing but a statement takes it,
as its last token, and then only a conditional looks further, for an `else`. If there is a
fault, a part of the stretch that ends with the semicolon is left, and recovery drops
exactly this part.

So a declaration on a barred stretch ends right behind it, with or without a fault, and a
stretch between two programs adds its own reports to them and nothing else. `Contained`
says that two productions go the same way, and is closed under what productions are built
from. Running out of levels is the one way out: it stops the whole parse.
-/
import ContractScript.Proofs.Program.Concatenation

set_option autoImplicit false

namespace ContractScript

namespace Parser

open Grammar (StartsWith)

variable {α β : Type} {sequel : List Token} {n : Nat}

/-! ## Barred stretches -/

/-- The last token is the only semicolon. -/
def EndsAtSemicolon (ts : List Token) : Prop :=
  ∃ before last, ts = before ++ [last] ∧ last.kind = .semicolon ∧ ∀ t ∈ before, t.kind ≠ .semicolon

/-- A semicolon either stands last, or is still to come. -/
theorem EndsAtSemicolon.cons {t : Token} {rest : List Token} (h : EndsAtSemicolon (t :: rest)) :
    (t.kind = .semicolon ∧ rest = []) ∨ (t.kind ≠ .semicolon ∧ EndsAtSemicolon rest) := by
  obtain ⟨before, last, split, hlast, others⟩ := h
  cases before with
  | nil =>
    cases split
    exact .inl ⟨hlast, rfl⟩
  | cons u before =>
    cases split
    exact .inr ⟨others t List.mem_cons_self, before, last, rfl, hlast,
      fun u hu => others u (List.mem_cons_of_mem t hu)⟩

theorem EndsAtSemicolon.ne_nil {ts : List Token} (h : EndsAtSemicolon ts) : ts ≠ [] := by
  obtain ⟨before, last, rfl, -⟩ := h
  exact List.append_ne_nil_of_right_ne_nil before (List.cons_ne_nil last [])

/-- Skipping from inside stops behind the semicolon. -/
theorem skip_endsAtSemicolon (rest : List Token) : ∀ previous : Token.Kind,
    previous ≠ .semicolon → EndsAtSemicolon rest → (∀ t ∈ rest, startsStatement t.kind = false) →
      skip previous (rest ++ sequel) = sequel := by
  induction rest with
  | nil => exact fun _ _ ends _ => absurd rfl ends.ne_nil
  | cons t rest ih =>
    intro previous inside ends plain
    have goesOn : (previous == .semicolon || startsStatement t.kind) = false := by
      rw [plain t List.mem_cons_self, Bool.or_false]
      exact beq_eq_false_iff_ne.mpr inside
    rw [List.cons_append, skip, goesOn, if_neg Bool.false_ne_true]
    rcases ends.cons with ⟨semicolon, rfl⟩ | ⟨other, ends⟩
    · -- the semicolon is dropped, and with it skipping ends
      rw [semicolon, List.nil_append]
      cases sequel <;> rfl
    · exact ih t.kind other ends fun u hu => plain u (List.mem_cons_of_mem t hu)

/-- A stretch of tokens up to its only semicolon, in one piece: without an opening brace, without a
loop at its start, and without another start of a statement inside. -/
structure Barred (ts : List Token) : Prop where
  ends : EndsAtSemicolon ts
  flat : ∀ t ∈ ts, t.kind ≠ .leftBrace
  once : ¬StartsWith .kwFor ts
  inside : ∀ t ∈ ts.tail, startsStatement t.kind = false

namespace Barred

/-- Behind a token that is no semicolon the stretch goes on. -/
theorem tail {t : Token} {rest : List Token} (h : Barred (t :: rest)) (other : t.kind ≠ .semicolon) :
    Barred rest := by
  have ends : EndsAtSemicolon rest := by
    rcases h.ends.cons with ⟨semicolon, -⟩ | ⟨-, ends⟩
    · exact absurd semicolon other
    · exact ends
  refine ⟨ends, fun u hu => h.flat u (List.mem_cons_of_mem t hu), ?_,
    fun u hu => h.inside u (List.mem_of_mem_tail hu)⟩
  rintro ⟨u, more, rfl, hfor⟩
  have plain := h.inside u List.mem_cons_self
  rw [hfor] at plain
  cases plain

/-- Recovery drops what is left of the stretch, and nothing else. -/
theorem recover_append {ts : List Token} (h : Barred ts) : recover (ts ++ sequel) = sequel := by
  cases ts with
  | nil => exact absurd rfl h.ends.ne_nil
  | cons t rest =>
    rw [List.cons_append, recover]
    rcases h.ends.cons with ⟨semicolon, rfl⟩ | ⟨other, ends⟩
    · rw [semicolon, List.nil_append]
      cases sequel <;> rfl
    · exact skip_endsAtSemicolon rest t.kind other ends h.inside

theorem not_startsWith_brace {ts : List Token} (h : Barred ts) :
    ¬StartsWith .leftBrace (ts ++ sequel) := by
  rintro ⟨t, rest, split, brace⟩
  cases ts with
  | nil => exact h.ends.ne_nil rfl
  | cons u more =>
    cases split
    exact h.flat t List.mem_cons_self brace

theorem not_startsWith_for {ts : List Token} (h : Barred ts) :
    ¬StartsWith .kwFor (ts ++ sequel) := by
  rintro ⟨t, rest, split, loop⟩
  cases ts with
  | nil => exact h.ends.ne_nil rfl
  | cons u more =>
    cases split
    exact h.once ⟨t, more, rfl, loop⟩

end Barred

/-- Nothing is left of the stretch. -/
def Spent (ts : List Token) : Prop := ts = []

/-! ## Two runs that go the same way -/

/-- Where two runs got to from two states, the second one with `sequel` behind what is left: as far
as each other, with the same new reports. -/
structure Together (sequel : List Token) (s s' s₁ s₁' : State) : Prop where
  ahead : s₁.Ahead sequel s₁'
  fewer : s₁.rest.length ≤ s.rest.length
  reports : ∃ new, s₁.reports = new ++ s.reports ∧ s₁'.reports = new ++ s'.reports

theorem Together.refl {s s' : State} (h : s.Ahead sequel s') : Together sequel s s' s s' :=
  ⟨h, Nat.le_refl _, [], rfl, rfl⟩

theorem Together.trans {s s' s₁ s₁' s₂ s₂' : State} (h : Together sequel s s' s₁ s₁')
    (h' : Together sequel s₁ s₁' s₂ s₂') : Together sequel s s' s₂ s₂' := by
  obtain ⟨first, hfirst, hfirst'⟩ := h.reports
  obtain ⟨second, hsecond, hsecond'⟩ := h'.reports
  refine ⟨h'.ahead, Nat.le_trans h'.fewer h.fewer, second ++ first, ?_, ?_⟩
  · rw [hsecond, hfirst, List.append_assoc]
  · rw [hsecond', hfirst', List.append_assoc]

/-- Two ends of runs from two states: with the same result where `Q` holds of what is left, or with a
fault on a barred stretch, or out of levels. -/
def SameWay (sequel : List Token) (Q : List Token → Prop) (s s' : State)
    (r r' : EStateM.Result Stop State α) : Prop :=
  match r with
  | .ok a s₁ => ∃ s₁', r' = .ok a s₁' ∧ Together sequel s s' s₁ s₁' ∧ Q s₁.rest
  | .error .fault s₁ => ∃ s₁', r' = .error .fault s₁' ∧ Together sequel s s' s₁ s₁' ∧ Barred s₁.rest
  | .error .depth _ => True

theorem SameWay.after {Q : List Token → Prop} {s s' s₁ s₁' : State}
    {r r' : EStateM.Result Stop State α} (together : Together sequel s s' s₁ s₁')
    (h : SameWay sequel Q s₁ s₁' r r') : SameWay sequel Q s s' r r' := by
  match r, h with
  | .ok a s₂, h =>
    obtain ⟨s₂', rfl, together', hQ⟩ := h
    exact ⟨s₂', rfl, together.trans together', hQ⟩
  | .error .fault s₂, h =>
    obtain ⟨s₂', rfl, together', barred⟩ := h
    exact ⟨s₂', rfl, together.trans together', barred⟩
  | .error .depth _, _ => trivial

/-- From fewer than `n` tokens that meet `P` the two productions go the same way. -/
def Contained (sequel : List Token) (n : Nat) (P Q : List Token → Prop) (p q : ParseM α) : Prop :=
  ∀ s s', s.rest.length < n → P s.rest → s.Ahead sequel s' → SameWay sequel Q s s' (p s) (q s')

namespace Contained

variable {P Q R : List Token → Prop}

theorem pure (a : α) : Contained sequel n P P (pure a) (pure a) :=
  fun _ s' _ hP ahead => ⟨s', rfl, .refl ahead, hP⟩

theorem fault : Contained sequel n Barred Q (throw .fault : ParseM α) (throw .fault) :=
  fun _ s' _ hP ahead => ⟨s', rfl, .refl ahead, hP⟩

theorem outOfLevels {q : ParseM α} : Contained sequel n P Q (throw .depth) q :=
  fun _ _ _ _ _ => trivial

/-- What is never reached need not go the same way. -/
theorem unreachable {p q : ParseM α} : Contained sequel n (fun _ => False) Q p q :=
  fun _ _ _ hP => hP.elim

/-- A stretch without tokens is not barred. -/
theorem noTokens {p q : ParseM α} : Contained sequel 1 Barred Q p q :=
  fun _ _ hn hP _ => absurd (List.length_eq_zero_iff.mp (Nat.lt_one_iff.mp hn)) hP.ends.ne_nil

theorem noRounds {p q : ParseM α} : Contained sequel 0 P Q p q :=
  fun _ _ hn => absurd hn (Nat.not_lt_zero _)

theorem bind {x y : ParseM α} {f g : α → ParseM β} (hx : Contained sequel n P Q x y)
    (hf : ∀ a, Contained sequel n Q R (f a) (g a)) :
    Contained sequel n P R (x >>= f) (y >>= g) := by
  intro s s' hn hP ahead
  have first := hx s s' hn hP ahead
  cases hr : x s with
  | ok a s₁ =>
    rw [hr] at first
    obtain ⟨s₁', run, together, hQ⟩ := first
    rw [bind_run_ok hr, bind_run_ok run]
    exact (hf a s₁ s₁' (Nat.lt_of_le_of_lt together.fewer hn) hQ together.ahead).after together
  | error e s₁ =>
    rw [hr] at first
    rw [bind_run_error hr]
    cases e with
    | depth => trivial
    | fault =>
      obtain ⟨s₁', run, together, barred⟩ := first
      exact ⟨s₁', bind_run_error run, together, barred⟩

/-! ### Reports -/

/-- A report at a token that both have. -/
theorem complainAt (t : Token) (complaint : Complaint) :
    Contained sequel n P P (Parser.complainAt t complaint) (Parser.complainAt t complaint) := by
  intro s s' _ hP ahead
  exact ⟨_, rfl, ⟨⟨ahead.rest, ahead.total⟩, Nat.le_refl _, [_], rfl, rfl⟩, hP⟩

/-- On a barred stretch there is a token to report at. -/
theorem complain (complaint : Complaint) :
    Contained sequel n Barred Barred (Parser.complain complaint) (Parser.complain complaint) := by
  rintro ⟨ts, total, bound, ending, reports⟩ ⟨ts', total', bound', ending', reports'⟩ hn hP ahead
  have behind : ts' = ts ++ sequel := ahead.rest
  subst behind
  cases ts with
  | nil => exact absurd rfl hP.ends.ne_nil
  | cons t rest => exact complainAt t complaint _ _ hn hP ahead

theorem fail (complaint : Complaint) :
    Contained sequel n Barred Q (Parser.fail complaint : ParseM α) (Parser.fail complaint) :=
  (complain complaint).bind fun _ => fault

theorem complainUnless (holds : Bool) (t : Token) (complaint : Complaint) :
    Contained sequel n P P (Parser.complainUnless holds t complaint)
      (Parser.complainUnless holds t complaint) := by
  unfold Parser.complainUnless
  split
  · exact .pure ()
  · exact .complainAt t complaint

theorem limitCount (complaint : Complaint) (count : Nat) :
    Contained sequel n Barred Barred (Parser.limitCount complaint count)
      (Parser.limitCount complaint count) := by
  unfold Parser.limitCount
  split
  · exact .complain complaint
  · exact .pure ()

/-! ### Looking at the next token -/

theorem acceptMap_taken {f : Token → Option α} {a : α} {s : State} {t : Token} {rest : List Token}
    (hs : s.rest = t :: rest) (hf : f t = some a) :
    acceptMap f s = .ok (some a) (s.goTo rest (by rw [hs]; exact Nat.le_succ _)) := by
  obtain ⟨ts, total, bound, ending, reports⟩ := s
  cases hs
  show taking (f t) _ = _
  rw [hf]
  rfl

theorem acceptMap_refused {f : Token → Option α} {s : State} (h : Refuses f s.rest) :
    acceptMap f s = .ok none s := by
  rcases acceptMap_cases f s with ⟨t, rest, a, _, hs, hf, -⟩ | ⟨-, run⟩
  · rw [h t rest hs] at hf
    cases hf
  · exact run

/-- Where no first token that `P` allows is taken. -/
theorem acceptMapNever {f : Token → Option α} {g h : Option α → ParseM β}
    (never : ∀ ts, P ts → Refuses f (ts ++ sequel))
    (hnone : Contained sequel n P Q (g none) (h none)) :
    Contained sequel n P Q (acceptMap f >>= g) (acceptMap f >>= h) := by
  intro s s' hn hP ahead
  have refused := never s.rest hP
  have alone : Refuses f s.rest := fun t rest hs => refused t (rest ++ sequel) (by rw [hs]; rfl)
  rw [bind_run_ok (acceptMap_refused alone), bind_run_ok (acceptMap_refused (ahead.rest ▸ refused))]
  exact hnone s s' hn hP ahead

/-- The next token of a barred stretch is taken on both sides or on neither. -/
theorem acceptMapAny {f : Token → Option α} {g h : Option α → ParseM β}
    (hsome : ∀ t rest a, f t = some a → Barred (t :: rest) → ∃ P, P rest ∧
      Contained sequel (n - 1) P Q (g (some a)) (h (some a)))
    (hnone : Contained sequel n Barred Q (g none) (h none)) :
    Contained sequel n Barred Q (acceptMap f >>= g) (acceptMap f >>= h) := by
  intro s s' hn hP ahead
  cases hs : s.rest with
  | nil => exact absurd hs hP.ends.ne_nil
  | cons t rest =>
    have hs' : s'.rest = t :: (rest ++ sequel) := by rw [ahead.rest, hs, List.cons_append]
    cases hf : f t with
    | none =>
      have refuses : ∀ ts, Refuses f (t :: ts) := by
        rintro ts u more ⟨⟩
        exact hf
      rw [bind_run_ok (acceptMap_refused (hs ▸ refuses rest)),
        bind_run_ok (acceptMap_refused (hs' ▸ refuses _))]
      exact hnone s s' hn hP ahead
    | some a =>
      obtain ⟨P', hP', others⟩ := hsome t rest a hf (hs ▸ hP)
      have fewer : rest.length < n - 1 := by
        rw [hs, List.length_cons] at hn
        omega
      have le : rest.length ≤ s.rest.length := by rw [hs]; exact Nat.le_succ _
      have le' : (rest ++ sequel).length ≤ s'.rest.length := by rw [hs']; exact Nat.le_succ _
      -- taking the token leaves both sides with the same stretch in front of what follows
      have together : Together sequel s s' (s.goTo rest le) (s'.goTo (rest ++ sequel) le') :=
        ⟨⟨rfl, ahead.total⟩, le, [], rfl, rfl⟩
      rw [bind_run_ok (acceptMap_taken hs hf), bind_run_ok (acceptMap_taken hs' hf)]
      exact (others _ _ fewer hP' together.ahead).after together

theorem acceptMap {f : Token → Option α} {g h : Option α → ParseM β}
    (other : ∀ t a, f t = some a → t.kind ≠ .semicolon)
    (hsome : ∀ a, Contained sequel (n - 1) Barred Q (g (some a)) (h (some a)))
    (hnone : Contained sequel n Barred Q (g none) (h none)) :
    Contained sequel n Barred Q (Parser.acceptMap f >>= g) (Parser.acceptMap f >>= h) :=
  acceptMapAny (fun t _ a hf barred => ⟨Barred, barred.tail (other t a hf), hsome a⟩) hnone

variable {kind : Token.Kind}

/-- Tokens of a kind that does not end the stretch. -/
theorem accept {g h : Option Token → ParseM β} (other : kind ≠ .semicolon)
    (hsome : ∀ t, Contained sequel (n - 1) Barred Q (g (some t)) (h (some t)))
    (hnone : Contained sequel n Barred Q (g none) (h none)) :
    Contained sequel n Barred Q (Parser.accept kind >>= g) (Parser.accept kind >>= h) := by
  refine acceptMap (f := ofKind kind) (fun t u hu => ?_) hsome hnone
  rw [(ofKind_eq_some.mp hu).2]
  exact other

theorem accepted {g h : Bool → ParseM β} (other : kind ≠ .semicolon)
    (hyes : Contained sequel (n - 1) Barred Q (g true) (h true))
    (hno : Contained sequel n Barred Q (g false) (h false)) :
    Contained sequel n Barred Q (Parser.accepted kind >>= g) (Parser.accepted kind >>= h) := by
  rw [accepted_bind, accepted_bind]
  exact accept other (fun _ => hyes) hno

/-- Tokens of a kind that is not next, whatever stands behind. -/
theorem acceptedNever {g h : Bool → ParseM β} (never : ∀ ts, P ts → ¬StartsWith kind (ts ++ sequel))
    (hno : Contained sequel n P Q (g false) (h false)) :
    Contained sequel n P Q (Parser.accepted kind >>= g) (Parser.accepted kind >>= h) := by
  rw [accepted_bind, accepted_bind]
  exact acceptMapNever (f := ofKind kind) (fun ts hP => refuses_ofKind.mpr (never ts hP)) hno

theorem expect (what : String) (other : kind ≠ .semicolon) :
    Contained sequel n Barred Barred (Parser.expect kind what) (Parser.expect kind what) :=
  accept other (fun t => .pure t) (fail _)

/-- A token that is not next is reported, and that is a fault. -/
theorem expectNever (what : String) (never : ∀ ts, Barred ts → ¬StartsWith kind (ts ++ sequel)) :
    Contained sequel n Barred Q (Parser.expect kind what) (Parser.expect kind what) :=
  acceptMapNever (f := ofKind kind) (fun ts hP => refuses_ofKind.mpr (never ts hP)) (fail _)

/-- The semicolon is the end of the stretch. -/
theorem expectSemicolon (what : String) :
    Contained sequel n Barred Spent (Parser.expect .semicolon what)
      (Parser.expect .semicolon what) := by
  refine acceptMapAny (f := ofKind .semicolon) (fun t rest u hu barred => ?_) (fail _)
  rcases barred.ends.cons with ⟨-, spent⟩ | ⟨other, -⟩
  · exact ⟨Spent, spent, .pure u⟩
  · exact absurd (ofKind_eq_some.mp hu).2 other

/-- The next token is the same one on both sides. -/
theorem current? {g h : Option Token → ParseM β}
    (hsome : ∀ t, Contained sequel n Barred Q (g (some t)) (h (some t))) :
    Contained sequel n Barred Q (Parser.current? >>= g) (Parser.current? >>= h) := by
  intro s s' hn hP ahead
  show SameWay sequel Q s s' (g s.rest.head? s) (h s'.rest.head? s')
  cases hs : s.rest with
  | nil => exact absurd hs hP.ends.ne_nil
  | cons t rest =>
    have hs' : s'.rest.head? = some t := by rw [ahead.rest, hs]; rfl
    rw [hs']
    exact hsome t s s' hn hP ahead

theorem check (kind : Token.Kind) :
    Contained sequel n Barred Barred (Parser.check kind) (Parser.check kind) :=
  current? fun t => .pure (t.kind == kind)

/-- Looking further than the semicolon makes no difference: the semicolon is no text. -/
theorem messageNext (ends : List Token.Kind) :
    Contained sequel n Barred Barred (Parser.messageNext ends) (Parser.messageNext ends) := by
  rintro ⟨ts, total, bound, ending, reports⟩ ⟨ts', total', bound', ending', reports'⟩ hn hP ahead
  have behind : ts' = ts ++ sequel := ahead.rest
  subst behind
  match ts with
  | [] => exact absurd rfl hP.ends.ne_nil
  | [t] =>
    have semicolon : (t.kind == .text) = false := by
      rcases hP.ends.cons with ⟨semicolon, -⟩ | ⟨-, ends⟩
      · rw [semicolon]
        rfl
      · exact absurd rfl ends.ne_nil
    refine ⟨_, ?_, .refl ahead, hP⟩
    cases sequel with
    | nil => rfl
    | cons u more =>
      show EStateM.Result.ok (t.kind == .text && ends.contains u.kind) _ = _
      rw [semicolon]
      rfl
  | t :: u :: rest => exact ⟨_, rfl, .refl ahead, hP⟩

/-- The number of all tokens bounds those that are left, on both sides. -/
theorem total {f g : Nat → ParseM β}
    (h : ∀ m m', m ≤ m' → Contained sequel (m + 1) P Q (f m) (g m')) :
    Contained sequel n P Q (Parser.total >>= f) (Parser.total >>= g) :=
  fun s s' _ hP ahead => h s.total s'.total ahead.total s s' (Nat.lt_succ_of_le s.rest_le) hP ahead

/-! ### Parts that may be missing, and repetition -/

theorem following {x y : ParseM α} (other : kind ≠ .semicolon)
    (h : Contained sequel (n - 1) Barred Barred x y) :
    Contained sequel n Barred Barred (Parser.following kind x) (Parser.following kind y) :=
  accepted other (h.bind fun a => .pure (some a)) (.pure none)

theorem itemUnless {close : Token.Kind} {x y : ParseM α} (h : Contained sequel n Barred Barred x y) :
    Contained sequel n Barred Barred (Parser.itemUnless close x) (Parser.itemUnless close y) := by
  refine (check close).bind fun closing => ?_
  split
  · exact .pure none
  · exact h.bind fun a => .pure (some a)

theorem commaSeparated {before : Nat → ParseM Unit} {item : ParseM α}
    (hbefore : ∀ n count, Contained sequel n Barred Barred (before count) (before count))
    (hitem : ∀ n, Contained sequel n Barred Barred item item) (rounds : Nat) :
    ∀ rounds' count, rounds ≤ rounds' → Contained sequel rounds Barred Barred
      (Parser.commaSeparated before item rounds count)
      (Parser.commaSeparated before item rounds' count) := by
  induction rounds with
  | zero => exact fun _ _ _ => noRounds
  | succ rounds ih =>
    intro rounds' count le
    obtain ⟨rounds', rfl⟩ := Nat.exists_eq_add_of_lt le
    exact (hbefore _ count).bind fun _ => (hitem _).bind fun a => accepted (by decide)
      ((ih _ (count + 1) (Nat.le_add_right _ _)).bind fun as => .pure (a :: as)) (.pure [a])

theorem itemsUntil {close : Token.Kind} {before : Nat → ParseM Unit} {item : ParseM α}
    (hbefore : ∀ n count, Contained sequel n Barred Barred (before count) (before count))
    (hitem : ∀ n, Contained sequel n Barred Barred item item) :
    Contained sequel n Barred Barred (Parser.itemsUntil close before item)
      (Parser.itemsUntil close before item) := by
  refine (check close).bind fun closing => ?_
  split
  · exact .pure []
  · exact total fun m m' le => commaSeparated hbefore hitem (m + 1) (m' + 1) 0 (by omega)

/-- Recovery ends behind the stretch on both sides. -/
theorem recovering {p q : ParseM (Option Stmt)} (h : Contained sequel n Barred Spent p q) :
    Contained sequel n Barred Spent (Parser.recovering p) (Parser.recovering q) := by
  intro s s' hn hP ahead
  have inner := h s s' hn hP ahead
  rw [recovering_run, recovering_run]
  match p s, inner with
  | .ok r s₁, inner =>
    obtain ⟨s₁', run, together, spent⟩ := inner
    rw [run]
    exact ⟨s₁', rfl, together, spent⟩
  | .error .depth _, _ => trivial
  | .error .fault s₁, inner =>
    obtain ⟨s₁', run, together, barred⟩ := inner
    have alone : recover s₁.rest = [] := by
      have dropped : recover (s₁.rest ++ []) = [] := barred.recover_append
      rwa [List.append_nil] at dropped
    rw [run]
    refine ⟨_, rfl, ⟨⟨?_, together.ahead.total⟩, ?_, together.reports⟩, alone⟩
    · show recover s₁'.rest = recover s₁.rest ++ sequel
      rw [together.ahead.rest, barred.recover_append, alone, List.nil_append]
    · show (recover s₁.rest).length ≤ s.rest.length
      rw [alone]
      exact Nat.zero_le _

end Contained

/-! ## Expressions -/

theorem operators_contained {t : Tier} {operand : ParseM Expr}
    (h : ∀ n, Contained sequel n Barred Barred operand operand) (rounds : Nat) :
    ∀ rounds' left, rounds ≤ rounds' → Contained sequel (rounds + 1) Barred Barred
      (operators t operand rounds left) (operators t operand rounds' left) := by
  induction rounds with
  | zero => exact fun _ _ _ => .noTokens
  | succ rounds ih =>
    intro rounds' left le
    obtain ⟨rounds', rfl⟩ := Nat.exists_eq_add_of_lt le
    refine .acceptMap (fun u join hu => ?_)
      (fun join => (h _).bind fun right => ih _ _ (Nat.le_add_right _ _)) (.pure left)
    intro semicolon
    rw [semicolon] at hu
    cases t <;> cases hu

theorem qualifiers_contained (rounds : Nat) : ∀ rounds', rounds ≤ rounds' →
    Contained sequel (rounds + 1) Barred Barred (qualifiers rounds) (qualifiers rounds') := by
  induction rounds with
  | zero => exact fun _ _ => .noTokens
  | succ rounds ih =>
    intro rounds' le
    obtain ⟨rounds', rfl⟩ := Nat.exists_eq_add_of_lt le
    exact .accepted (by decide) ((Contained.expect _ (by decide)).bind fun t =>
      (ih _ (Nat.le_add_right _ _)).bind fun names => .pure (t.lexeme :: names)) (.pure [])

theorem suffixes_contained {call subscript : Expr → Place → ParseM Expr}
    (hcall : ∀ n e p, Contained sequel n Barred Barred (call e p) (call e p))
    (hsubscript : ∀ n e p, Contained sequel n Barred Barred (subscript e p) (subscript e p))
    (rounds : Nat) :
    ∀ rounds' operand, rounds ≤ rounds' → Contained sequel (rounds + 1) Barred Barred
      (suffixes call subscript rounds operand) (suffixes call subscript rounds' operand) := by
  induction rounds with
  | zero => exact fun _ _ _ => .noTokens
  | succ rounds ih =>
    intro rounds' operand le
    obtain ⟨rounds', rfl⟩ := Nat.exists_eq_add_of_lt le
    exact .accept (by decide) (fun t => (hcall _ operand t.place).bind fun _ =>
        ih _ _ (Nat.le_add_right _ _))
      (.accept (by decide) (fun t => (hsubscript _ operand t.place).bind fun _ =>
        ih _ _ (Nat.le_add_right _ _)) (.pure operand))

theorem assigning_contained (equals : Token) (target value : Expr) :
    Contained sequel n Barred Barred (assigning equals target value)
      (assigning equals target value) := by
  unfold assigning
  split
  · exact .pure _
  · exact (Contained.complainAt equals _).bind fun _ => .pure target

/-- The productions of expressions at one number of levels. -/
structure ExpressionsContained (sequel : List Token) (depth : Nat) : Prop where
  expression : ∀ n, Contained sequel n Barred Barred (expression depth) (expression depth)
  assignment : ∀ n, Contained sequel n Barred Barred (assignment depth) (assignment depth)
  choice : ∀ n, Contained sequel n Barred Barred (choice depth) (choice depth)
  tier : ∀ n t, Contained sequel n Barred Barred (tier depth t) (tier depth t)
  unary : ∀ n, Contained sequel n Barred Barred (unary depth) (unary depth)
  postfixed : ∀ n, Contained sequel n Barred Barred (postfixed depth) (postfixed depth)
  arguments : ∀ n e, Contained sequel n Barred Barred (arguments depth e) (arguments depth e)
  subscript : ∀ n e p, Contained sequel n Barred Barred (subscript depth e p) (subscript depth e p)
  primary : ∀ n, Contained sequel n Barred Barred (primary depth) (primary depth)

section ExpressionLevel

variable {depth : Nat} (ih : ExpressionsContained sequel depth) (n)
include ih

theorem assignment_contained :
    Contained sequel n Barred Barred (assignment (depth + 1)) (assignment (depth + 1)) := by
  rw [assignment]
  exact (ih.choice n).bind fun target => .accept (by decide)
    (fun equals => (ih.assignment _).bind fun value => assigning_contained equals target value)
    (.pure target)

theorem choice_contained :
    Contained sequel n Barred Barred (choice (depth + 1)) (choice (depth + 1)) := by
  rw [choice]
  exact (ih.tier n .or).bind fun condition => .accepted (by decide)
    ((ih.choice _).bind fun _ => (Contained.expect _ (by decide)).bind fun _ => (ih.choice _).bind fun _ =>
      .pure _) (.pure condition)

theorem tier_contained (t : Tier) :
    Contained sequel n Barred Barred (tier (depth + 1) t) (tier (depth + 1) t) := by
  have whole : ∀ operand : ParseM Expr, (∀ n, Contained sequel n Barred Barred operand operand) →
      Contained sequel n Barred Barred (do let left ← operand; operators t operand (← total) left)
        (do let left ← operand; operators t operand (← total) left) :=
    fun operand h => (h n).bind fun left => .total fun m m' le => operators_contained h m m' left le
  rw [tier]
  cases t.tighter? with
  | some next => exact whole _ fun k => ih.tier k next
  | none => exact whole _ ih.unary

theorem unary_contained :
    Contained sequel n Barred Barred (unary (depth + 1)) (unary (depth + 1)) := by
  rw [unary]
  refine .acceptMap (fun t op ht semicolon => ?_)
    (fun op => (ih.unary _).bind fun _ => .pure _) (ih.postfixed n)
  rw [unaryOp?, semicolon] at ht
  cases ht

theorem postfixed_contained :
    Contained sequel n Barred Barred (postfixed (depth + 1)) (postfixed (depth + 1)) := by
  rw [postfixed]
  exact (ih.primary n).bind fun operand => .total fun m m' le =>
    suffixes_contained (fun k e _ => ih.arguments k e) ih.subscript m m' operand le

theorem arguments_contained (callee : Expr) :
    Contained sequel n Barred Barred (arguments (depth + 1) callee)
      (arguments (depth + 1) callee) := by
  rw [arguments]
  exact (Contained.itemsUntil (fun _ count => .limitCount _ count) ih.expression).bind fun _ =>
    (Contained.expect _ (by decide)).bind fun _ => .pure _

theorem subscript_contained (collection : Expr) (bracket : Place) :
    Contained sequel n Barred Barred (subscript (depth + 1) collection bracket)
      (subscript (depth + 1) collection bracket) := by
  rw [subscript]
  exact (ih.expression n).bind fun _ => .accepted (by decide)
    ((ih.expression _).bind fun _ => (Contained.expect _ (by decide)).bind fun _ => .pure _)
    ((Contained.expect _ (by decide)).bind fun _ => .pure _)

/-- No map starts inside the stretch. -/
theorem primary_contained :
    Contained sequel n Barred Barred (primary (depth + 1)) (primary (depth + 1)) := by
  rw [primary]
  refine .acceptMap ?literal (fun value => .pure _) (.accept (by decide) (fun name => ?name)
    (.accepted (by decide) ?group (.accepted (by decide) ?list (.acceptedNever ?map
      (.acceptMap ?operator (fun t => (Contained.complainAt t _).bind fun _ => .fault)
        (.fail _))))))
  case literal =>
    intro t value ht semicolon
    rw [literal?, semicolon] at ht
    cases ht
  case name => exact .total fun m m' le => (qualifiers_contained m m' le).bind fun _ => .pure _
  case group =>
    exact (ih.expression _).bind fun _ => (Contained.expect _ (by decide)).bind fun _ => .pure _
  case list =>
    exact (Contained.itemsUntil (fun _ _ => .pure ()) ih.expression).bind fun _ =>
      (Contained.expect _ (by decide)).bind fun _ => .pure _
  case map => exact fun ts barred => barred.not_startsWith_brace
  case operator =>
    intro t u ht semicolon
    rw [semicolon] at ht
    cases ht

end ExpressionLevel

theorem expressionsContained (depth : Nat) : ExpressionsContained sequel depth := by
  induction depth with
  | zero =>
    exact ⟨fun _ => .outOfLevels, fun _ => .outOfLevels, fun _ => .outOfLevels,
      fun _ _ => .outOfLevels, fun _ => .outOfLevels, fun _ => .outOfLevels,
      fun _ _ => .outOfLevels, fun _ _ _ => .outOfLevels, fun _ => .outOfLevels⟩
  | succ depth ih =>
    exact
      { expression := fun n => by
          rw [expression]
          exact ih.assignment n
        assignment := fun n => assignment_contained n ih
        choice := fun n => choice_contained n ih
        tier := fun n => tier_contained n ih
        unary := fun n => unary_contained n ih
        postfixed := fun n => postfixed_contained n ih
        arguments := fun n => arguments_contained n ih
        subscript := fun n => subscript_contained n ih
        primary := fun n => primary_contained n ih }

/-! ## Contracts -/

theorem clauseItems_contained {ends : List Token.Kind} {condition : ParseM Expr}
    (h : ∀ n, Contained sequel n Barred Barred condition condition) (rounds : Nat) :
    ∀ rounds', rounds ≤ rounds' → Contained sequel rounds Barred Barred
      (clauseItems ends condition rounds) (clauseItems ends condition rounds') := by
  induction rounds with
  | zero => exact fun _ _ => .noRounds
  | succ rounds ih =>
    intro rounds' le
    obtain ⟨rounds', rfl⟩ := Nat.exists_eq_add_of_lt le
    refine (Contained.messageNext ends).bind fun isMessage => ?_
    cases isMessage with
    | true => exact .accept (by decide) (fun t => .pure _) (.pure _)
    | false =>
      exact (h _).bind fun first => .accepted (by decide)
        ((ih _ (Nat.le_add_right _ _)).bind fun _ => .pure _) (.pure _)

theorem clauses_contained (ends : List Token.Kind) (depth : Nat) :
    Contained sequel n Barred Barred (clauses ends depth) (clauses ends depth) := by
  cases depth with
  | zero => exact .outOfLevels
  | succ depth =>
    rw [clauses]
    refine .total fun m m' le => (clauseItems_contained (expressionsContained depth).expression
      (m + 1) (m' + 1) (Nat.succ_le_succ le)).bind fun found => ?_
    obtain ⟨conditions, message⟩ := found
    cases conditions with
    | cons e es => exact .pure _
    | nil =>
      cases message with
      | none => exact .pure _
      | some t => exact (Contained.complainAt t _).bind fun _ => .fault

theorem functionClauses_contained {kind : Token.Kind} (word : String) (ends : List Token.Kind)
    (depth : Nat) (other : kind ≠ .semicolon) : Contained sequel n Barred Barred
      (functionClauses kind word ends depth) (functionClauses kind word ends depth) :=
  .accepted other ((Contained.expect _ (by decide)).bind fun _ => clauses_contained ends depth)
    (.pure _)

/-! ## Statements

The semicolon that ends the stretch ends the statement. -/

/-- Something of which the semicolon is the end. -/
theorem contained_last {x y : ParseM α} {f : α → Token → β} {what : String}
    (h : Contained sequel n Barred Barred x y) : Contained sequel n Barred Spent
      (do let a ← x; let t ← expect .semicolon what; return f a t)
      (do let a ← y; let t ← expect .semicolon what; return f a t) :=
  h.bind fun _ => (Contained.expectSemicolon what).bind fun _ => .pure _

theorem varDeclaration_contained (depth : Nat) :
    Contained sequel n Barred Spent (varDeclaration depth) (varDeclaration depth) := by
  cases depth with
  | zero => exact .outOfLevels
  | succ depth =>
    rw [varDeclaration]
    exact (Contained.expect _ (by decide)).bind fun name =>
      contained_last (.following (by decide) ((expressionsContained depth).expression _))

theorem expressionStatement_contained (depth : Nat) :
    Contained sequel n Barred Spent (expressionStatement depth) (expressionStatement depth) := by
  cases depth with
  | zero => exact .outOfLevels
  | succ depth =>
    rw [expressionStatement]
    exact contained_last ((expressionsContained depth).expression _)

theorem printStatement_contained (depth : Nat) :
    Contained sequel n Barred Spent (printStatement depth) (printStatement depth) := by
  cases depth with
  | zero => exact .outOfLevels
  | succ depth =>
    rw [printStatement]
    exact contained_last ((expressionsContained depth).expression _)

/-- A misplaced `break` is reported behind the stretch, but at its keyword. -/
theorem leaveStatement_contained (context : Context) (keyword : Token) :
    Contained sequel n Barred Spent (leaveStatement context keyword)
      (leaveStatement context keyword) :=
  (Contained.expectSemicolon _).bind fun _ =>
    (Contained.complainUnless _ keyword _).bind fun _ => .pure _

theorem yieldStatement_contained (context : Context) (keyword : Token) (depth : Nat) :
    Contained sequel n Barred Spent (yieldStatement context keyword depth)
      (yieldStatement context keyword depth) := by
  cases depth with
  | zero => exact .outOfLevels
  | succ depth =>
    rw [yieldStatement]
    exact (Contained.complainUnless _ keyword _).bind fun _ =>
      contained_last (.itemUnless ((expressionsContained depth).expression _))

theorem contractStatement_contained (kind : ContractKind) (place : Place) (depth : Nat) :
    Contained sequel n Barred Spent (contractStatement kind place depth)
      (contractStatement kind place depth) := by
  cases depth with
  | zero => exact .outOfLevels
  | succ depth =>
    rw [contractStatement]
    exact (Contained.expect _ (by decide)).bind fun _ => contained_last (clauses_contained _ depth)

theorem loadStatement_contained :
    Contained sequel n Barred Spent loadStatement loadStatement :=
  (Contained.expect _ (by decide)).bind fun _ =>
    contained_last (.following (by decide) (Contained.expect _ (by decide)))

/-- The signature of a function ends with a brace, so inside the stretch there is none. -/
theorem signature_contained (depth : Nat) :
    Contained sequel n Barred (fun _ => False) (signature depth) (signature depth) :=
  (Contained.expect _ (by decide)).bind fun _ => (Contained.expect _ (by decide)).bind fun _ =>
    (Contained.itemsUntil (fun _ count => .limitCount _ count) fun _ =>
      Contained.expect _ (by decide)).bind fun _ =>
    (Contained.expect _ (by decide)).bind fun _ =>
    (functionClauses_contained _ _ depth (by decide)).bind fun _ =>
    (functionClauses_contained _ _ depth (by decide)).bind fun _ =>
    (Contained.expectNever _ fun _ barred => barred.not_startsWith_brace).bind fun _ => .unreachable

/-- The productions of statements at one number of levels. -/
structure StatementsContained (sequel : List Token) (depth : Nat) : Prop where
  declaration : ∀ n context,
    Contained sequel n Barred Spent (declaration context depth) (declaration context depth)
  testStatement : ∀ n context,
    Contained sequel n Barred Spent (testStatement context depth) (testStatement context depth)
  statement : ∀ n context,
    Contained sequel n Barred Spent (statement context depth) (statement context depth)
  branch : ∀ n context,
    Contained sequel n Barred Spent (branch context depth) (branch context depth)
  loopBody : ∀ n context,
    Contained sequel n Barred Spent (loopBody context depth) (loopBody context depth)
  whileLoop : ∀ n context,
    Contained sequel n Barred Spent (whileLoop context depth) (whileLoop context depth)

/-- Without its brace a function has no body, and is a fault. -/
theorem function_contained (context : Context) (depth : Nat) :
    Contained sequel n Barred Spent (function context depth) (function context depth) := by
  cases depth with
  | zero => exact .outOfLevels
  | succ depth =>
    rw [function]
    exact (signature_contained depth).bind fun _ => .unreachable

section StatementLevel

variable {depth : Nat} (ih : StatementsContained sequel depth) (n) (context : Context)
include ih

theorem testStatement_contained : Contained sequel n Barred Spent
    (testStatement context (depth + 1)) (testStatement context (depth + 1)) := by
  rw [testStatement]
  exact (Contained.expect _ (by decide)).bind fun _ => (ih.statement _ _).bind fun _ => .pure _

/-- The one production that looks behind the stretch: it must not find an `else` there. -/
theorem branch_contained (noElse : ¬StartsWith .kwElse sequel) : Contained sequel n Barred Spent
    (branch context (depth + 1)) (branch context (depth + 1)) := by
  have behind : ∀ x : ParseM Stmt, Contained sequel n Spent Spent
      (Parser.following .kwElse x) (Parser.following .kwElse x) := by
    intro x
    apply Contained.acceptedNever ?_ (.pure none)
    rintro ts rfl
    exact noElse
  rw [branch]
  exact (Contained.expect _ (by decide)).bind fun _ =>
    ((expressionsContained depth).expression _).bind fun _ =>
    (Contained.expect _ (by decide)).bind fun _ => (ih.statement _ context).bind fun _ =>
    (behind _).bind fun _ => .pure _

theorem whileLoop_contained : Contained sequel n Barred Spent
    (whileLoop context (depth + 1)) (whileLoop context (depth + 1)) := by
  rw [whileLoop]
  exact (Contained.expect _ (by decide)).bind fun _ =>
    ((expressionsContained depth).expression _).bind fun _ =>
    (Contained.expect _ (by decide)).bind fun _ => (ih.loopBody _ context).bind fun _ => .pure _

/-- There is neither a block nor a counting loop in the stretch. -/
theorem statement_contained : Contained sequel n Barred Spent
    (statement context (depth + 1)) (statement context (depth + 1)) := by
  rw [statement]
  exact .accepted (by decide) (printStatement_contained depth) <|
    .acceptedNever (fun _ barred => barred.not_startsWith_brace) <|
    .accepted (by decide) (ih.branch _ context) <|
    .accepted (by decide) (ih.whileLoop _ context) <|
    .acceptedNever (fun _ barred => barred.not_startsWith_for) <|
    .accept (by decide) (fun keyword => leaveStatement_contained context keyword) <|
    .accept (by decide) (fun keyword => yieldStatement_contained context keyword depth) <|
    .accept (by decide) (fun keyword => contractStatement_contained .assertion keyword.place depth) <|
    .accept (by decide) (fun keyword => contractStatement_contained .check keyword.place depth) <|
    .accepted (by decide) loadStatement_contained (expressionStatement_contained depth)

theorem declaration_contained : Contained sequel n Barred Spent
    (declaration context (depth + 1)) (declaration context (depth + 1)) := by
  rw [declaration]
  exact .recovering <|
    .accepted (by decide) ((varDeclaration_contained depth).bind fun s => .pure _) <|
    .accepted (by decide) ((function_contained context depth).bind fun s => .pure _) <|
    .accepted (by decide) ((ih.testStatement _ context).bind fun s => .pure _)
      ((ih.statement _ context).bind fun s => .pure _)

end StatementLevel

theorem statementsContained (noElse : ¬StartsWith .kwElse sequel) (depth : Nat) :
    StatementsContained sequel depth := by
  induction depth with
  | zero =>
    exact ⟨fun _ _ => .outOfLevels, fun _ _ => .outOfLevels, fun _ _ => .outOfLevels,
      fun _ _ => .outOfLevels, fun _ _ => .outOfLevels, fun _ _ => .outOfLevels⟩
  | succ depth ih =>
    exact
      { declaration := fun n => declaration_contained n ih
        testStatement := fun n => testStatement_contained n ih
        statement := fun n => statement_contained n ih
        branch := fun n context => branch_contained n ih context noElse
        loopBody := fun n context => by
          rw [loopBody]
          exact ih.statement n { context with inLoop := true }
        whileLoop := fun n => whileLoop_contained n ih }

/-! ## Programs -/

/-- A declaration on a barred stretch ends right behind it, and has reported the same whatever
stands there; and alone it makes up the whole parse. -/
theorem declaration_barred {context : Context} {depth : Nat} (noElse : ¬StartsWith .kwElse sequel)
    {s s' : State} (barred : Barred s.rest) (ahead : s.Ahead sequel s') {rounds : Nat}
    (enough : s.rest.length ≤ rounds) {p : Program} {s₁ : State}
    (run : declarations (declaration context depth) rounds s = .ok p s₁)
    (shallow : ∀ d ∈ s₁.reports, d.complaint ≠ .nestsTooDeeply) :
    ∃ r s₁', p = r.toList ∧ declaration context depth s' = .ok r s₁' ∧ s₁'.rest = sequel ∧
      ∃ new, s₁.reports = new ++ s.reports ∧ s₁'.reports = new ++ s'.reports := by
  have contained := (statementsContained noElse depth).declaration (s.rest.length + 1) context s s'
    (Nat.lt_succ_self _) barred ahead
  obtain ⟨t, rest, hs⟩ := List.exists_cons_of_ne_nil barred.ends.ne_nil
  obtain ⟨rounds, rfl⟩ : ∃ k, rounds = k + 1 := by
    rw [hs, List.length_cons] at enough
    exact ⟨rounds - 1, by omega⟩
  rcases declarations_run (declaration context depth) rounds hs with
    ⟨r, s₂, first, others⟩ | ⟨e, s₂, s₃, d, -, all, hreports, hd⟩
  · rw [first] at contained
    -- alone it ends with the stretch, so the loop that runs it has nothing left to do
    obtain ⟨s₂', run', together, spent⟩ := contained
    have whole := others [] s₂ (declarations_nil spent)
    rw [run] at whole
    cases whole
    refine ⟨r, s₂', List.append_nil _, run', ?_, together.reports⟩
    rw [together.ahead.rest, spent, List.nil_append]
  · -- running out of levels has been reported
    rw [run] at all
    cases all
    exact absurd hd (shallow d (hreports ▸ List.mem_cons_self))

/-- The declarations of a well-formed program are read at the end of any tokens. -/
theorem declarations_last {context : Context} {depth : Nat} {after : TokenList} {r : Program}
    {v : State} (run : declarations (declaration context depth) after.tokens.length
      (State.start after) = .ok r v) (quiet : v.reports = []) {s : State}
    (hrest : s.rest = after.tokens) {rounds : Nat} (enough : after.tokens.length ≤ rounds) :
    ∃ s', declarations (declaration context depth) rounds s = .ok r s' ∧ s'.reports = s.reports := by
  have bound := s.rest_le
  rw [hrest] at bound
  obtain ⟨left, s', hrest', hreports, -, whole⟩ := declarations_append
    (fun n => (statementsGrasp (Grammar.not_startsWith_nil _) depth).declaration n context)
    after.tokens.length rounds (State.start after) s r v (Nat.le_refl _) (by rw [hrest]; exact enough)
    ⟨by rw [hrest, List.append_nil]; rfl, bound⟩ run (by rw [quiet]; rfl)
  have run' := whole [] s' (declarations_nil hrest')
  rw [List.append_nil] at run'
  exact ⟨s', run', hreports⟩

/-- A barred stretch and then a well-formed program. -/
theorem declarations_barred {context : Context} {depth : Nat} {bad after : TokenList} {q r : Program}
    {u v : State} (noElse : ¬StartsWith .kwElse after.tokens) (barred : Barred bad.tokens)
    (runBad : declarations (declaration context depth) bad.tokens.length (State.start bad) = .ok q u)
    (shallow : ∀ d ∈ u.reports, d.complaint ≠ .nestsTooDeeply)
    (runAfter : declarations (declaration context depth) after.tokens.length (State.start after)
      = .ok r v) (quiet : v.reports = []) {s : State} (hrest : s.rest = bad.tokens ++ after.tokens)
    {rounds : Nat} (enough : bad.tokens.length + after.tokens.length ≤ rounds) :
    ∃ s', declarations (declaration context depth) rounds s = .ok (q ++ r) s' ∧
      s'.reports = u.reports ++ s.reports := by
  have bound := s.rest_le
  rw [hrest, List.length_append] at bound
  obtain ⟨found, s₁, rfl, declared, hrest₁, new, hnew, hnew'⟩ := declaration_barred noElse
    (s := State.start bad) barred ⟨hrest, Nat.le_trans (Nat.le_add_right _ _) bound⟩ (Nat.le_refl _)
    runBad shallow
  -- the stretch took a round, and one is left for every token of the program
  have pos := List.length_pos_iff.mpr barred.ends.ne_nil
  obtain ⟨rounds, rfl⟩ : ∃ k, rounds = k + 1 := ⟨rounds - 1, by omega⟩
  have left : after.tokens.length ≤ rounds := by omega
  obtain ⟨s₂, behind, still⟩ := declarations_last runAfter quiet hrest₁ left
  obtain ⟨t, more, hs⟩ := List.exists_cons_of_ne_nil
    (hrest.symm ▸ List.append_ne_nil_of_left_ne_nil barred.ends.ne_nil after.tokens)
  have added : u.reports = new := hnew.trans (List.append_nil new)
  rcases declarations_run (declaration context depth) rounds hs with
    ⟨found', s₃, first, others⟩ | ⟨_, _, _, _, first, -⟩
  · cases declared.symm.trans first
    exact ⟨s₂, others r s₂ behind, by rw [still, hnew', added]⟩
  · cases declared.symm.trans first

end Parser

/-- A program that is well formed does not start with an `else`, whether tests are kept or not. -/
theorem Program.not_startsWith_else_of_quiet {keepTests : Bool} {input : TokenList}
    (h : (Program.parse keepTests input).2 = []) : ¬Grammar.StartsWith .kwElse input.tokens := by
  cases keepTests with
  | true => exact Program.not_startsWith_else h
  | false =>
    rw [Program.parse_dropping] at h
    exact Program.not_startsWith_else h

/-- A barred stretch between two programs that are well formed adds its own statements and reports
to theirs, and nothing else. -/
theorem Program.parse_around {keepTests : Bool} {before bad after : TokenList} (ending : Place)
    (hbefore : (Program.parse keepTests before).2 = [])
    (hafter : (Program.parse keepTests after).2 = []) (barred : Parser.Barred bad.tokens)
    (noElse : ¬Grammar.StartsWith .kwElse bad.tokens)
    (shallow : ∀ d ∈ (Program.parse keepTests bad).2, d.complaint ≠ .nestsTooDeeply) :
    Program.parse keepTests ⟨before.tokens ++ bad.tokens ++ after.tokens, ending⟩
      = ((Program.parse keepTests before).1 ++ (Program.parse keepTests bad).1
          ++ (Program.parse keepTests after).1, (Program.parse keepTests bad).2) := by
  have noElseBoth : ¬Grammar.StartsWith .kwElse (bad.tokens ++ after.tokens) := by
    rintro ⟨t, rest, split, hk⟩
    cases hbad : bad.tokens with
    | nil => exact barred.ends.ne_nil hbad
    | cons u more =>
      rw [hbad, List.cons_append] at split
      cases split
      exact noElse ⟨t, more, hbad, hk⟩
  obtain ⟨p, s, hp⟩ := Parser.declarations_total
    (Parser.declaration (Parser.Context.top keepTests) Parser.nesting) before.tokens.length
    (Parser.State.start before)
  obtain ⟨q, u, hq⟩ := Parser.declarations_total
    (Parser.declaration (Parser.Context.top keepTests) Parser.nesting) bad.tokens.length
    (Parser.State.start bad)
  obtain ⟨r, v, hr⟩ := Parser.declarations_total
    (Parser.declaration (Parser.Context.top keepTests) Parser.nesting) after.tokens.length
    (Parser.State.start after)
  have noElseAfter := Program.not_startsWith_else_of_quiet hafter
  rw [Program.parse_run keepTests before hp] at hbefore ⊢
  rw [Program.parse_run keepTests bad hq] at shallow ⊢
  rw [Program.parse_run keepTests after hr] at hafter ⊢
  have quiet : s.reports = [] := List.reverse_eq_nil_iff.mp hbefore
  -- the first program, with the rest behind it, and then the rest
  obtain ⟨left, s', hrest, hreports, hleft, whole⟩ := Parser.declarations_append
    (fun n => (Parser.statementsGrasp noElseBoth Parser.nesting).declaration n
      (Parser.Context.top keepTests))
    before.tokens.length (before.tokens ++ bad.tokens ++ after.tokens).length
    (Parser.State.start before)
    (Parser.State.start ⟨before.tokens ++ bad.tokens ++ after.tokens, ending⟩) p s
    (Nat.le_refl _) (Nat.le_refl _)
    ⟨List.append_assoc _ _ _, by simp [Parser.State.start]⟩ hp (by rw [quiet]; rfl)
  rw [List.length_append] at hleft
  obtain ⟨s₂, behind, hreports₂⟩ := Parser.declarations_barred noElseAfter barred hq
    (fun d hd => shallow d (List.mem_reverse.mpr hd)) hr (List.reverse_eq_nil_iff.mp hafter) hrest hleft
  rw [Program.parse_run keepTests _ (whole _ _ behind), hreports₂, hreports]
  show (p ++ (q ++ r), (u.reports ++ []).reverse) = (p ++ q ++ r, u.reports.reverse)
  rw [List.append_nil, List.append_assoc]

/-- Only a declaration of a test is one. -/
theorem Grammar.Statement.isTest_eq_false {takesElse : Bool} {ts : List Token} {s : Stmt}
    (h : Grammar.Statement takesElse ts s) : s.isTest = false := by
  cases h with
  | expression h _ =>
    cases h
    rfl
  | @counting _ _ _ _ _ _ _ _ start _ _ _ _ _ _ _ _ _ _ _ _ =>
    cases start <;> rfl
  | _ => rfl

theorem Grammar.Declaration.startsWith_test {ts : List Token} {s : Stmt}
    (h : Grammar.Declaration ts s) (test : s.isTest = true) : Grammar.StartsWith .kwTest ts := by
  cases h with
  | var _ h =>
    cases h
    cases test
  | function => cases test
  | test keyword _ _ => exact ⟨_, _, rfl, keyword⟩
  | statement h =>
    rw [h.isTest_eq_false] at test
    cases test

/-- Tokens that are no test and of which nothing is left have a fault. -/
theorem Program.reports_of_lost {keepTests : Bool} {input : TokenList} (some : input.tokens ≠ [])
    (noTest : keepTests = true ∨ ¬Grammar.StartsWith .kwTest input.tokens)
    (lost : (Program.parse keepTests input).1 = []) : (Program.parse keepTests input).2 ≠ [] := by
  intro quiet
  have quietly : (Program.parse true input).2 = [] := by
    cases keepTests with
    | true => exact quiet
    | false => rwa [Program.parse_dropping] at quiet
  have derives := (Program.derives_of_parse input quietly).1
  cases hp : (Program.parse true input).1 with
  | nil =>
    rw [hp] at derives
    generalize input.tokens = ts at derives some
    cases derives
    exact some rfl
  | cons s body =>
    cases keepTests with
    | true =>
      rw [hp] at lost
      cases lost
    | false =>
      -- only a test can be dropped, and it starts with its word
      rw [Program.parse_dropping, hp] at lost
      have test : s.isTest = true := by
        cases hs : s.isTest with
        | true => rfl
        | false =>
          rw [Stmt.dropTests_cons hs] at lost
          cases lost
      rw [hp] at derives
      have starts : Grammar.StartsWith .kwTest input.tokens := by
        generalize input.tokens = ts at derives
        cases derives with
        | more first _ =>
          obtain ⟨t, rest, rfl, hk⟩ := first.startsWith_test test
          exact ⟨t, _, rfl, hk⟩
      exact noTest.elim nofun fun none => none starts

/-- A fault is contained in its statement. If nothing is left of a barred stretch, then between two
well-formed programs it is as if it were not there, apart from its own reports; and unless it is a
test that was read to be dropped, it has some. Levels may not have run out on the way, for that ends
the parse. -/
theorem Program.parse_contains_fault {keepTests : Bool} {before bad after : TokenList}
    (ending : Place) (hbefore : (Program.parse keepTests before).2 = [])
    (hafter : (Program.parse keepTests after).2 = []) (barred : Parser.Barred bad.tokens)
    (noElse : ¬Grammar.StartsWith .kwElse bad.tokens)
    (lost : (Program.parse keepTests bad).1 = [])
    (shallow : ∀ d ∈ (Program.parse keepTests bad).2, d.complaint ≠ .nestsTooDeeply) :
    Program.parse keepTests ⟨before.tokens ++ bad.tokens ++ after.tokens, ending⟩
      = ((Program.parse keepTests before).1 ++ (Program.parse keepTests after).1,
        (Program.parse keepTests bad).2) ∧
    Program.parse keepTests ⟨before.tokens ++ after.tokens, ending⟩
      = ((Program.parse keepTests before).1 ++ (Program.parse keepTests after).1, []) ∧
    ((keepTests = true ∨ ¬Grammar.StartsWith .kwTest bad.tokens) →
      (Program.parse keepTests bad).2 ≠ []) := by
  refine ⟨?_, ?_, fun noTest => Program.reports_of_lost barred.ends.ne_nil noTest lost⟩
  · rw [Program.parse_around ending hbefore hafter barred noElse shallow, lost, List.append_nil]
  · cases keepTests with
    | true => exact Program.parse_append ending hbefore hafter
    | false => exact Program.parse_append_dropping ending hbefore hafter

/-- The tokens of `a;`, or of another name. -/
def naming (name : String) : TokenList :=
  let here : Place := ⟨none, 1⟩
  ⟨[⟨.identifier, ⟨name, here⟩⟩, ⟨.semicolon, ⟨";", here⟩⟩], here⟩

/-- The tokens of `var = b;`, which lacks a name. -/
def nameless : TokenList :=
  let here : Place := ⟨none, 1⟩
  ⟨[⟨.kwVar, ⟨"var", here⟩⟩, ⟨.equal, ⟨"=", here⟩⟩, ⟨.identifier, ⟨"b", here⟩⟩,
    ⟨.semicolon, ⟨";", here⟩⟩], here⟩

/-- The fault in `a; var = b; c;` leaves `a; c;`. -/
theorem Program.parse_contains_fault_nameless :
    Program.parse false ⟨(naming "a").tokens ++ nameless.tokens ++ (naming "c").tokens, ⟨none, 1⟩⟩
      = ([.expression (.variable ⟨"a", ⟨none, 1⟩⟩), .expression (.variable ⟨"c", ⟨none, 1⟩⟩)],
        [⟨⟨none, 1⟩, .lexeme "=", .expect "variable name"⟩]) := by
  have barred : Parser.Barred nameless.tokens := by
    refine ⟨⟨nameless.tokens.take 3, ⟨.semicolon, ⟨";", ⟨none, 1⟩⟩⟩, rfl, rfl, by decide⟩, by decide,
      ?_, by decide⟩
    rintro ⟨t, rest, split, hk⟩
    cases split
    cases hk
  have noElse : ¬Grammar.StartsWith .kwElse nameless.tokens := by
    rintro ⟨t, rest, split, hk⟩
    cases split
    cases hk
  have parsed : Program.parse false nameless
      = ([], [⟨⟨none, 1⟩, .lexeme "=", .expect "variable name"⟩]) := rfl
  have quiet : (Program.parse false (naming "a")).2 = [] := rfl
  have quiet' : (Program.parse false (naming "c")).2 = [] := rfl
  have whole := (Program.parse_contains_fault ⟨none, 1⟩ quiet quiet' barred noElse (by rw [parsed])
    (by rw [parsed]; decide)).1
  rw [whole, parsed]
  rfl

/-- Opening parentheses and then a semicolon. -/
def descent (steps : Nat) : TokenList :=
  let here : Place := ⟨none, 1⟩
  ⟨List.replicate steps ⟨.leftParen, ⟨"(", here⟩⟩ ++ [⟨.semicolon, ⟨";", here⟩⟩], here⟩

theorem kind_of_mem_descent {steps : Nat} {t : Token} (h : t ∈ (descent steps).tokens) :
    t.kind = .leftParen ∨ t.kind = .semicolon := by
  rcases List.mem_append.mp h with h | h
  · exact .inl (congrArg Token.kind (List.eq_of_mem_replicate h))
  · exact .inr (congrArg Token.kind (List.mem_singleton.mp h))

theorem barred_descent (steps : Nat) : Parser.Barred (descent steps).tokens := by
  refine ⟨⟨_, _, rfl, rfl, fun t ht => ?_⟩, fun t ht => ?_, ?_, fun t ht => ?_⟩
  · rw [List.eq_of_mem_replicate ht]
    nofun
  · rcases kind_of_mem_descent ht with hk | hk <;> rw [hk] <;> nofun
  · rintro ⟨t, rest, split, hfor⟩
    have found := kind_of_mem_descent (split ▸ List.mem_cons_self (a := t) (l := rest))
    rw [hfor] at found
    rcases found with found | found <;> cases found
  · rcases kind_of_mem_descent (List.mem_of_mem_tail ht) with hk | hk <;> rw [hk] <;> rfl

set_option maxRecDepth 10000 in
/-- A fault that uses up the levels is not contained: the parse ends there. Two thousand parentheses
are barred and leave no statement, but between `a;` and `c;` they cost the `c;`. -/
theorem Program.descent_not_contained :
    (Program.parse true (naming "a")).2 = [] ∧ (Program.parse true (naming "c")).2 = [] ∧
    Parser.Barred (descent 2000).tokens ∧
    (∀ t ∈ (descent 2000).tokens, t.kind = .leftParen ∨ t.kind = .semicolon) ∧
    (Program.parse true (descent 2000)).1 = [] ∧
    Program.parse true
        ⟨(naming "a").tokens ++ (descent 2000).tokens ++ (naming "c").tokens, ⟨none, 1⟩⟩
      ≠ ((Program.parse true (naming "a")).1 ++ (Program.parse true (naming "c")).1,
        (Program.parse true (descent 2000)).2) := by
  refine ⟨rfl, rfl, barred_descent 2000, fun t ht => kind_of_mem_descent ht, rfl, ?_⟩
  have whole : Program.parse true
      ⟨(naming "a").tokens ++ (descent 2000).tokens ++ (naming "c").tokens, ⟨none, 1⟩⟩
      = ([.expression (.variable ⟨"a", ⟨none, 1⟩⟩)], [⟨⟨none, 1⟩, .lexeme "(", .nestsTooDeeply⟩]) :=
    rfl
  rw [whole]
  intro same
  cases congrArg (fun result => result.1.length) same

end ContractScript
