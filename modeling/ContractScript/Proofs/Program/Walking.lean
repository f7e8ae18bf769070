/-
The walk of the cursor.

A parse looks at tokens and takes them, one thing after another. Seen from outside it
goes from one list of tokens that are left to a shorter one; here every step on the way
is made visible. `Walk p s looks r` says that `p`, run from `s`, is made of elementary
steps that end with `r`, and lists the looks at tokens in their order, each with the
position of the cursor at that moment and the token that is looked at: the one behind
the cursor, the one in front of it, or the one after that.

Two things follow. However a parse is made of elementary steps, its cursor only moves
forward and its looks stay between the first token and the end (`Walk.forward`). And the
productions are made of them: `Proceeds` is closed under everything that productions are
built from. The same predicate carries the bound on levels, since both are about every
run of a production, quiet or not.
-/
import ContractScript.Proofs.Program.Sequel

set_option autoImplicit false

namespace ContractScript.Parser

variable {α β : Type}

/-! ## Positions -/

/-- The position of the cursor: the number of tokens that have been taken. -/
def State.cursor (s : State) : Nat := s.total - s.rest.length

theorem State.cursor_add_length (s : State) : s.cursor + s.rest.length = s.total :=
  Nat.sub_add_cancel s.rest_le

theorem State.cursor_le_total (s : State) : s.cursor ≤ s.total := Nat.sub_le _ _

/-- The cursor stands at the end exactly if no token is left. -/
theorem State.cursor_eq_total_iff (s : State) : s.cursor = s.total ↔ s.rest = [] := by
  have split := s.cursor_add_length
  rw [← List.length_eq_zero_iff]
  omega

/-- Where a look goes, seen from the cursor. -/
inductive Gaze where
  | back
  | here
  | ahead
deriving Repr, DecidableEq

/-- A look at a token, with the position of the cursor at that moment. -/
structure Look where
  cursor : Nat
  gaze : Gaze
deriving Repr, DecidableEq

/-- The index of what is looked at. The tokens have the indices below `total`, and the end of the
source has the index `total`; a look ahead goes no further than that. -/
def Look.index (total : Nat) (look : Look) : Int :=
  match look.gaze with
  | .back => (look.cursor : Int) - 1
  | .here => look.cursor
  | .ahead => (min (look.cursor + 1) total : Nat)

/-- There is something to look at. -/
def Look.InRange (total : Nat) (look : Look) : Prop :=
  0 ≤ look.index total ∧ look.index total ≤ total

theorem Look.inRange_here {total cursor : Nat} (h : cursor ≤ total) :
    InRange total ⟨cursor, .here⟩ := by
  simp only [InRange, index]
  omega

theorem Look.inRange_ahead (total cursor : Nat) : InRange total ⟨cursor, .ahead⟩ := by
  simp only [InRange, index]
  omega

/-- Looking back needs a token that has been taken. -/
theorem Look.inRange_back {total cursor : Nat} (pos : 0 < cursor) (h : cursor ≤ total) :
    InRange total ⟨cursor, .back⟩ := by
  simp only [InRange, index]
  omega

/-! ## Elementary steps -/

/-- The looks of skipping, with `cursor` tokens before those that are left. -/
def skipLooks (cursor : Nat) (previous : Token.Kind) : List Token → List Look
  | [] => [⟨cursor, .here⟩]
  | t :: rest =>
    ⟨cursor, .here⟩ :: ⟨cursor, .back⟩ ::
      if previous == .semicolon || startsStatement t.kind then []
      else ⟨cursor + 1, .back⟩ :: skipLooks (cursor + 1) t.kind rest

/-- The looks of a recovery. It tries to drop a token first and looks back at the last one. -/
def recoverLooks (cursor : Nat) : List Token → List Look
  | [] => [⟨cursor, .here⟩, ⟨cursor, .back⟩, ⟨cursor, .here⟩]
  | t :: rest => ⟨cursor, .here⟩ :: ⟨cursor + 1, .back⟩ :: skipLooks (cursor + 1) t.kind rest

/-- The state in which a run ends, whether it gives up or not. -/
def endOf : EStateM.Result Stop State α → State
  | .ok _ s => s
  | .error _ s => s

/-- A run as a sequence of elementary steps, with its looks at tokens. A declaration is tried, and
recovered from, only where a token is left. -/
inductive Walk : {α : Type} → ParseM α → State → List Look → EStateM.Result Stop State α → Prop
  | done {α : Type} (a : α) (s : State) : Walk (pure a) s [] (.ok a s)
  | stop {α : Type} (e : Stop) (s : State) : Walk (throw e : ParseM α) s [] (.error e s)
  | size (s : State) : Walk total s [] (.ok s.total s)
  | look (s : State) : Walk current? s [⟨s.cursor, .here⟩] (.ok s.rest.head? s)
  | lookAhead (ends : List Token.Kind) (s : State) :
      Walk (messageNext ends) s [⟨s.cursor, .here⟩, ⟨s.cursor, .ahead⟩] (messageNext ends s)
  | take {s : State} {t : Token} {rest : List Token} :
      s.rest = t :: rest → Walk advance s [⟨s.cursor + 1, .back⟩] (advance s)
  | report (t : Token) (complaint : Complaint) (s : State) :
      Walk (complainAt t complaint) s [] (complainAt t complaint s)
  | reportHere (complaint : Complaint) (s : State) :
      Walk (complain complaint) s [⟨s.cursor, .here⟩] (complain complaint s)
  | seq {α β : Type} {x : ParseM α} {f : α → ParseM β} {s s₁ : State} {a : α} {looks more : List Look}
      {r : EStateM.Result Stop State β} :
      Walk x s looks (.ok a s₁) → Walk (f a) s₁ more r → Walk (x >>= f) s (looks ++ more) r
  | seqStop {α β : Type} {x : ParseM α} {f : α → ParseM β} {s s₁ : State} {e : Stop}
      {looks : List Look} : Walk x s looks (.error e s₁) → Walk (x >>= f) s looks (.error e s₁)
  | declared {p : ParseM (Option Stmt)} {s : State} {looks : List Look}
      {r : EStateM.Result Stop State (Option Stmt)} :
      Walk p s looks r → (∀ s', r ≠ .error .fault s') → Walk (recovering p) s looks r
  | recovered {p : ParseM (Option Stmt)} {s s' : State} {looks : List Look} :
      s.rest ≠ [] → Walk p s looks (.error .fault s') →
      Walk (recovering p) s (looks ++ recoverLooks s'.cursor s'.rest)
        (.ok none (s'.goTo (recover s'.rest) (length_recover_le s'.rest)))
  | attempted {one : ParseM (Option Stmt)} {s s' : State} {found : Option Stmt} {looks : List Look} :
      Walk one s looks (.ok found s') → Walk (attempting one) s looks (.ok (some found) s')
  | abandoned {one : ParseM (Option Stmt)} {s s' s'' : State} {e : Stop} {looks : List Look} :
      Walk one s looks (.error e s') → complain .nestsTooDeeply s' = .ok () s'' →
      Walk (attempting one) s (looks ++ [⟨s'.cursor, .here⟩]) (.ok none s'')

/-! ## Every walk goes forward -/

/-- Between two states the cursor only moved forward, and every look found something. -/
structure Forward (s : State) (looks : List Look) (s' : State) : Prop where
  rest : s'.rest <:+ s.rest
  total : s'.total = s.total
  between : ∀ look ∈ looks, s.cursor ≤ look.cursor ∧ look.cursor ≤ s'.cursor
  inRange : ∀ look ∈ looks, look.InRange s.total
  sorted : looks.Pairwise fun l l' => l.cursor ≤ l'.cursor

namespace Forward

variable {s s₁ s₂ : State} {looks more : List Look}

theorem cursor_le (h : Forward s looks s₁) : s.cursor ≤ s₁.cursor := by
  have shorter := h.rest.length_le
  have before := s.cursor_add_length
  have after := s₁.cursor_add_length
  have total := h.total
  omega

theorem refl (s : State) : Forward s [] s :=
  ⟨List.suffix_refl _, rfl, by simp, by simp, .nil⟩

/-- One look from where the cursor stands. -/
theorem still {gaze : Gaze} (h : Look.InRange s.total ⟨s.cursor, gaze⟩) :
    Forward s [⟨s.cursor, gaze⟩] s := by
  refine ⟨List.suffix_refl _, rfl, ?_, ?_, List.pairwise_singleton _ _⟩
  · intro look hlook
    rw [List.mem_singleton.mp hlook]
    exact ⟨Nat.le_refl _, Nat.le_refl _⟩
  · intro look hlook
    rw [List.mem_singleton.mp hlook]
    exact h

theorem append (h : Forward s looks s₁) (h' : Forward s₁ more s₂) : Forward s (looks ++ more) s₂ := by
  have first := h.cursor_le
  have second := h'.cursor_le
  refine ⟨h'.rest.trans h.rest, h'.total.trans h.total, ?_, ?_, ?_⟩
  · intro look hlook
    rcases List.mem_append.mp hlook with hlook | hlook
    · have := h.between look hlook
      omega
    · have := h'.between look hlook
      omega
  · intro look hlook
    rcases List.mem_append.mp hlook with hlook | hlook
    · exact h.inRange look hlook
    · exact h.total ▸ h'.inRange look hlook
  · refine List.pairwise_append.mpr ⟨h.sorted, h'.sorted, ?_⟩
    intro look hlook look' hlook'
    exact Nat.le_trans (h.between look hlook).2 (h'.between look' hlook').1

/-- What changes beside the tokens does not matter. -/
theorem ofRest (h : Forward s looks s₁) (hrest : s₂.rest = s₁.rest) (htotal : s₂.total = s₁.total) :
    Forward s looks s₂ := by
  have same : s₂.cursor = s₁.cursor := by rw [State.cursor, State.cursor, hrest, htotal]
  exact ⟨hrest ▸ h.rest, htotal.trans h.total, same ▸ h.between, h.inRange, h.sorted⟩

/-- Taking a token and looking back at it. -/
theorem take {t : Token} {rest : List Token} (h : s.rest = t :: rest)
    (le : rest.length ≤ s.rest.length) :
    Forward s [⟨s.cursor + 1, .back⟩] (s.goTo rest le) ∧ (s.goTo rest le).cursor = s.cursor + 1 := by
  have before := s.cursor_add_length
  have after : (s.goTo rest le).cursor + rest.length = s.total := (s.goTo rest le).cursor_add_length
  rw [h, List.length_cons] at before
  have moved : (s.goTo rest le).cursor = s.cursor + 1 := by omega
  refine ⟨⟨by rw [h]; exact List.suffix_cons t rest, rfl, ?_, ?_, List.pairwise_singleton _ _⟩, moved⟩
  · intro look hlook
    rw [List.mem_singleton.mp hlook]
    exact ⟨Nat.le_succ _, Nat.le_of_eq moved.symm⟩
  · intro look hlook
    rw [List.mem_singleton.mp hlook]
    exact Look.inRange_back (Nat.succ_pos _) (by omega)

/-- Skipping goes forward. Its looks back need a token before those that are left. -/
theorem skip (rest : List Token) : ∀ (s s₁ : State) (previous : Token.Kind), s.rest = rest →
    0 < s.cursor → s₁.rest = skip previous rest → s₁.total = s.total →
    Forward s (skipLooks s.cursor previous rest) s₁ := by
  induction rest with
  | nil =>
    intro s s₁ previous hs pos hrest htotal
    exact (still (Look.inRange_here s.cursor_le_total)).ofRest (hrest.trans hs.symm) htotal
  | cons t rest ih =>
    intro s s₁ previous hs pos hrest htotal
    have looked : Forward s [⟨s.cursor, .here⟩, ⟨s.cursor, .back⟩] s :=
      (still (Look.inRange_here s.cursor_le_total)).append
        (still (Look.inRange_back pos s.cursor_le_total))
    rw [Parser.skip] at hrest
    rw [skipLooks]
    split at hrest
    · rename_i boundary
      rw [if_pos boundary]
      exact looked.ofRest (hrest.trans hs.symm) htotal
    · rename_i inside
      rw [if_neg inside]
      -- the token is dropped, and skipping goes on behind it
      have le : rest.length ≤ s.rest.length := by rw [hs]; exact Nat.le_succ _
      obtain ⟨taken, moved⟩ := take hs le
      have others := ih (s.goTo rest le) s₁ t.kind rfl (by omega) hrest htotal
      rw [moved] at others
      exact looked.append (taken.append others)

/-- Recovery goes forward. -/
theorem recover (pos : s.rest = [] → 0 < s.cursor) (hrest : s₁.rest = recover s.rest)
    (htotal : s₁.total = s.total) : Forward s (recoverLooks s.cursor s.rest) s₁ := by
  have here := still (Look.inRange_here s.cursor_le_total)
  cases hs : s.rest with
  | nil =>
    rw [hs] at hrest
    have looked := here.append ((still (Look.inRange_back (pos hs) s.cursor_le_total)).append here)
    exact looked.ofRest (hrest.trans hs.symm) htotal
  | cons t rest =>
    rw [hs] at hrest
    have le : rest.length ≤ s.rest.length := by rw [hs]; exact Nat.le_succ _
    obtain ⟨taken, moved⟩ := take hs le
    have others := skip rest (s.goTo rest le) s₁ t.kind rfl (by omega) hrest htotal
    rw [moved] at others
    exact here.append (taken.append others)

end Forward

/-- However a run is made of elementary steps, the cursor never moves back and never passes the end,
and every look is at a token or at the end. -/
theorem Walk.forward {p : ParseM α} {s : State} {looks : List Look}
    {r : EStateM.Result Stop State α} (walk : Walk p s looks r) : Forward s looks (endOf r) := by
  induction walk with
  | done | stop | size => exact .refl _
  | look s => exact .still (Look.inRange_here s.cursor_le_total)
  | lookAhead ends s =>
    obtain ⟨b, run, -⟩ := messageNext_run ends s
    rw [run]
    exact (Forward.still (Look.inRange_here s.cursor_le_total)).append
      (.still (Look.inRange_ahead _ _))
  | @take s t rest h =>
    obtain ⟨ts, total, bound, ending, reports⟩ := s
    cases h
    exact (Forward.take rfl (Nat.le_succ _)).1
  | report t complaint s => exact (Forward.refl s).ofRest rfl rfl
  | reportHere complaint s =>
    obtain ⟨ts, total, bound, ending, reports⟩ := s
    have here := Forward.still (s := ⟨ts, total, bound, ending, reports⟩)
      (Look.inRange_here (State.cursor_le_total _))
    cases ts with
    | nil => exact here.ofRest rfl rfl
    | cons t rest => exact here.ofRest rfl rfl
  | seq _ _ first second => exact first.append second
  | seqStop _ first => exact first
  | declared _ _ ih => exact ih
  | @recovered p s s' looks left _ ih =>
    -- if no token is left behind the fault, one was taken before it
    have taken : s'.rest = [] → 0 < s'.cursor := by
      intro none
      have before := s.cursor_add_length
      have after := s'.cursor_add_length
      have total : s'.total = s.total := ih.total
      have pos := List.length_pos_iff.mpr left
      rw [none, List.length_nil] at after
      omega
    exact ih.append (.recover taken rfl rfl)
  | attempted _ ih => exact ih
  | @abandoned one s s' s'' e looks _ complained ih =>
    refine ih.append ?_
    obtain ⟨ts, total, bound, ending, reports⟩ := s'
    have here := Forward.still (s := ⟨ts, total, bound, ending, reports⟩)
      (Look.inRange_here (State.cursor_le_total _))
    cases ts with
    | nil => cases complained; exact here.ofRest rfl rfl
    | cons t rest => cases complained; exact here.ofRest rfl rfl

/-! ## Productions are walks -/

/-- Every run of a production is a walk, and if there is room, no run on fewer than `n` tokens uses
up the levels. -/
structure Proceeds (n : Nat) (room : Prop) (p : ParseM α) : Prop where
  walks : ∀ s, ∃ looks, Walk p s looks (p s)
  endures : room → ∀ s s', s.rest.length < n → p s ≠ .error .depth s'

/-- The same of what is only run where a token is left. -/
structure ProceedsOnward (n : Nat) (room : Prop) (p : ParseM α) : Prop where
  walks : ∀ s, s.rest ≠ [] → ∃ looks, Walk p s looks (p s)
  endures : room → ∀ s s', s.rest.length < n → p s ≠ .error .depth s'

namespace Proceeds

variable {n : Nat} {room : Prop} {p : ParseM α}

theorem onward (h : Proceeds n room p) : ProceedsOnward n room p :=
  ⟨fun s _ => h.walks s, h.endures⟩

theorem mono {m : Nat} {room' : Prop} (h : Proceeds n room p) (le : m ≤ n) (less : room' → room) :
    Proceeds m room' p :=
  ⟨h.walks, fun hroom s s' hs => h.endures (less hroom) s s' (Nat.lt_of_lt_of_le hs le)⟩

/-- A single step that never fails. -/
theorem step (walks : ∀ s, ∃ looks, Walk p s looks (p s)) (total : ∀ s e s', p s ≠ .error e s') :
    Proceeds n room p :=
  ⟨walks, fun _ s s' _ => total s .depth s'⟩

theorem pure (a : α) : Proceeds n room (pure a : ParseM α) :=
  step (fun s => ⟨[], .done a s⟩) fun _ _ _ run => by cases run

theorem fault : Proceeds n room (throw .fault : ParseM α) :=
  ⟨fun s => ⟨[], .stop .fault s⟩, fun _ _ _ _ run => by cases run⟩

/-- Where there are no levels there is no room. -/
theorem outOfLevels (none : ¬room) : Proceeds n room (throw .depth : ParseM α) :=
  ⟨fun s => ⟨[], .stop .depth s⟩, fun hroom => absurd hroom none⟩

theorem complainAt (t : Token) (complaint : Complaint) :
    Proceeds n room (Parser.complainAt t complaint) :=
  step (fun s => ⟨[], .report t complaint s⟩) fun _ _ _ run => by cases run

theorem complain (complaint : Complaint) : Proceeds n room (Parser.complain complaint) := by
  refine step (fun s => ⟨_, .reportHere complaint s⟩) fun s e s' run => ?_
  obtain ⟨d, s₁, done, -⟩ := complains_complain complaint s
  rw [done] at run
  cases run

theorem current? : Proceeds n room Parser.current? :=
  step (fun s => ⟨_, .look s⟩) fun _ _ _ run => by cases run

theorem total : Proceeds n room Parser.total :=
  step (fun s => ⟨_, .size s⟩) fun _ _ _ run => by cases run

theorem messageNext (ends : List Token.Kind) : Proceeds n room (Parser.messageNext ends) := by
  refine step (fun s => ⟨_, .lookAhead ends s⟩) fun s e s' run => ?_
  obtain ⟨b, done, -⟩ := messageNext_run ends s
  rw [done] at run
  cases run

/-- What is left is never more than before. -/
theorem rest_le (h : Proceeds n room p) {s s' : State} {a : α} (run : p s = .ok a s') :
    s'.rest.length ≤ s.rest.length := by
  obtain ⟨looks, walk⟩ := h.walks s
  rw [run] at walk
  exact walk.forward.rest.length_le

/-- The same where the run gives up. -/
theorem error_rest_le (h : Proceeds n room p) {s s' : State} {e : Stop} (run : p s = .error e s') :
    s'.rest.length ≤ s.rest.length := by
  obtain ⟨looks, walk⟩ := h.walks s
  rw [run] at walk
  exact walk.forward.rest.length_le

/-- Walks one after the other. -/
theorem walks_bind {x : ParseM α} {f : α → ParseM β} {s : State}
    (hx : ∃ looks, Walk x s looks (x s))
    (hf : ∀ a s₁, x s = .ok a s₁ → ∃ looks, Walk (f a) s₁ looks (f a s₁)) :
    ∃ looks, Walk (x >>= f) s looks ((x >>= f) s) := by
  obtain ⟨looks, first⟩ := hx
  cases run : x s with
  | ok a s₁ =>
    obtain ⟨more, second⟩ := hf a s₁ run
    rw [run] at first
    rw [bind_run_ok run]
    exact ⟨_, .seq first second⟩
  | error e s₁ =>
    rw [run] at first
    rw [bind_run_error run]
    exact ⟨_, .seqStop first⟩

theorem bind {x : ParseM α} {f : α → ParseM β} (hx : Proceeds n room x)
    (hf : ∀ a, Proceeds n room (f a)) : Proceeds n room (x >>= f) := by
  refine ⟨fun s => walks_bind (hx.walks s) fun a s₁ _ => (hf a).walks s₁, ?_⟩
  intro hroom s s' hs run
  cases first : x s with
  | ok a s₁ =>
    rw [bind_run_ok first] at run
    exact (hf a).endures hroom s₁ s' (Nat.lt_of_le_of_lt (hx.rest_le first) hs) run
  | error e s₁ =>
    rw [bind_run_error first] at run
    cases run
    exact hx.endures hroom s s' hs first

theorem ite (c : Prop) [Decidable c] {x y : ParseM α} (hx : Proceeds n room x)
    (hy : Proceeds n room y) : Proceeds n room (if c then x else y) := by
  split
  · exact hx
  · exact hy

/-! ### Looking at the next token -/

theorem walks_acceptMap (f : Token → Option α) (s : State) :
    ∃ looks, Walk (Parser.acceptMap f) s looks (Parser.acceptMap f s) := by
  refine walks_bind ⟨_, .look s⟩ fun next s₁ run => ?_
  cases run
  obtain ⟨ts, total, bound, ending, reports⟩ := s
  cases ts with
  | nil => exact ⟨_, .done _ _⟩
  | cons t rest =>
    show ∃ looks, Walk (taking (f t)) _ looks (taking (f t) _)
    cases f t with
    | none => exact ⟨_, .done _ _⟩
    | some a => exact walks_bind ⟨_, .take rfl⟩ fun _ s₁ _ => ⟨_, .done _ s₁⟩

/-- Behind a token that is taken there are fewer, and there was one. -/
theorem acceptMap {f : Token → Option α} {g : Option α → ParseM β}
    (hsome : ∀ a, Proceeds (n - 1) (room ∧ 1 < n) (g (some a))) (hnone : Proceeds n room (g none)) :
    Proceeds n room (Parser.acceptMap f >>= g) := by
  refine ⟨fun s => walks_bind (walks_acceptMap f s) fun r s₁ _ => ?_, fun hroom s s' hs run => ?_⟩
  · cases r with
    | none => exact hnone.walks s₁
    | some a => exact (hsome a).walks s₁
  · rcases acceptMap_cases f s with ⟨t, rest, a, s₁, hrest, -, found, hrest₁, -⟩ | ⟨-, found⟩
    · rw [bind_run_ok found] at run
      rw [hrest, List.length_cons] at hs
      exact (hsome a).endures ⟨hroom, by omega⟩ s₁ s' (by rw [hrest₁]; omega) run
    · rw [bind_run_ok found] at run
      exact hnone.endures hroom s s' hs run

theorem accept {kind : Token.Kind} {g : Option Token → ParseM β}
    (hsome : ∀ t, Proceeds (n - 1) (room ∧ 1 < n) (g (some t))) (hnone : Proceeds n room (g none)) :
    Proceeds n room (Parser.accept kind >>= g) :=
  acceptMap hsome hnone

theorem accepted {kind : Token.Kind} {g : Bool → ParseM β}
    (hyes : Proceeds (n - 1) (room ∧ 1 < n) (g true)) (hno : Proceeds n room (g false)) :
    Proceeds n room (Parser.accepted kind >>= g) := by
  have walks : ∀ s, ∃ looks, Walk (Parser.accepted kind) s looks (Parser.accepted kind s) :=
    fun s => walks_bind (walks_acceptMap _ s) fun r s₁ _ => ⟨_, .done _ s₁⟩
  have same : Proceeds n room (Parser.accept kind >>= fun r => g r.isSome) := accept (fun _ => hyes) hno
  rw [← accepted_bind] at same
  refine ⟨fun s => walks_bind (walks s) fun b s₁ _ => ?_, same.endures⟩
  cases b with
  | true => exact hyes.walks s₁
  | false => exact hno.walks s₁

theorem check (kind : Token.Kind) : Proceeds n room (Parser.check kind) := by
  refine current?.bind fun next => ?_
  cases next with
  | none => exact .pure false
  | some t => exact .pure (t.kind == kind)

theorem fail (complaint : Complaint) : Proceeds n room (Parser.fail complaint : ParseM α) :=
  (complain complaint).bind fun _ => fault

theorem expect (kind : Token.Kind) (what : String) : Proceeds n room (Parser.expect kind what) :=
  accept (fun t => .pure t) (.fail _)

theorem complainUnless (holds : Bool) (t : Token) (complaint : Complaint) :
    Proceeds n room (Parser.complainUnless holds t complaint) :=
  .ite _ (.pure ()) (.complainAt t complaint)

theorem limitCount (complaint : Complaint) (count : Nat) :
    Proceeds n room (Parser.limitCount complaint count) :=
  .ite _ (.complain complaint) (.pure ())

/-! ### Parts that may be missing, and repetition -/

theorem following {kind : Token.Kind} {x : ParseM α} (h : Proceeds (n - 1) (room ∧ 1 < n) x) :
    Proceeds n room (Parser.following kind x) :=
  accepted (h.bind fun a => .pure (some a)) (.pure none)

theorem itemUnless {close : Token.Kind} {x : ParseM α} (h : Proceeds n room x) :
    Proceeds n room (Parser.itemUnless close x) := by
  refine (check close).bind fun closing => ?_
  split
  · exact .pure none
  · exact h.bind fun a => .pure (some a)

/-- What there is room for on some tokens, there is room for on fewer. -/
theorem fewer (h : Proceeds n room p) : Proceeds (n - 1) (room ∧ 1 < n) p :=
  h.mono (Nat.sub_le n 1) And.left

theorem commaSeparated {before : Nat → ParseM Unit} {item : ParseM α}
    (hbefore : ∀ n room count, Proceeds n room (before count)) (rounds : Nat) :
    ∀ {n : Nat} {room : Prop} (count : Nat), Proceeds n room item →
      Proceeds n room (Parser.commaSeparated before item rounds count) := by
  induction rounds with
  | zero => exact fun _ _ => .pure []
  | succ rounds ih =>
    intro n room count h
    exact (hbefore n room count).bind fun _ => h.bind fun a => accepted
      ((ih (count + 1) h.fewer).bind fun as => .pure (a :: as)) (.pure [a])

theorem itemsUntil {close : Token.Kind} {before : Nat → ParseM Unit} {item : ParseM α}
    (hbefore : ∀ n room count, Proceeds n room (before count)) (h : Proceeds n room item) :
    Proceeds n room (Parser.itemsUntil close before item) := by
  refine (check close).bind fun closing => ?_
  split
  · exact .pure []
  · exact total.bind fun m => commaSeparated hbefore (m + 1) 0 h

/-- Looking whether a token is left. -/
theorem current?Onward {g : Option Token → ParseM β} (hnone : Proceeds n room (g none))
    (hsome : ∀ t, ProceedsOnward n room (g (some t))) :
    Proceeds n room (Parser.current? >>= g) := by
  refine ⟨fun s => walks_bind ⟨_, .look s⟩ fun next s₁ run => ?_, fun hroom s s' hs => ?_⟩
  · cases run
    cases hs : s.rest with
    | nil => exact hnone.walks s
    | cons t rest => exact (hsome t).walks s (by rw [hs]; exact List.cons_ne_nil t rest)
  · show g s.rest.head? s ≠ _
    cases s.rest.head? with
    | none => exact hnone.endures hroom s s' hs
    | some t => exact (hsome t).endures hroom s s' hs

end Proceeds

namespace ProceedsOnward

variable {n : Nat} {room : Prop}

theorem bind {x : ParseM α} {f : α → ParseM β} (hx : ProceedsOnward n room x) (steady : Steady x)
    (hf : ∀ a, Proceeds n room (f a)) : ProceedsOnward n room (x >>= f) := by
  refine ⟨fun s left => Proceeds.walks_bind (hx.walks s left) fun a s₁ _ => (hf a).walks s₁, ?_⟩
  intro hroom s s' hs run
  cases first : x s with
  | ok a s₁ =>
    rw [bind_run_ok first] at run
    have le := (steady.of_ok first).rest.length_le
    exact (hf a).endures hroom s₁ s' (Nat.lt_of_le_of_lt le hs) run
  | error e s₁ =>
    rw [bind_run_error first] at run
    cases run
    exact hx.endures hroom s s' hs first

/-- Recovery takes no levels. -/
theorem recovering {p : ParseM (Option Stmt)} (h : Proceeds n room p) :
    ProceedsOnward n room (Parser.recovering p) := by
  refine ⟨fun s left => ?_, fun hroom s s' hs run => ?_⟩
  -- a fault is a walk up to where it happens, and the recovery goes on from there
  · obtain ⟨looks, walk⟩ := h.walks s
    rw [recovering_run]
    cases hp : p s with
    | ok r s₁ =>
      rw [hp] at walk
      exact ⟨_, .declared walk nofun⟩
    | error e s₁ =>
      rw [hp] at walk
      cases e with
      | fault => exact ⟨_, .recovered left walk⟩
      | depth => exact ⟨_, .declared walk nofun⟩
  · rw [recovering_run] at run
    cases hp : p s with
    | ok r s₁ =>
      rw [hp] at run
      cases run
    | error e s₁ =>
      rw [hp] at run
      cases e with
      | fault => cases run
      | depth =>
        cases run
        exact h.endures hroom s s' hs hp

/-- Running out of levels is reported at the token where it happened. -/
theorem attempting_error {one : ParseM (Option Stmt)} {s s' s'' : State} {e : Stop}
    (failed : one s = .error e s') (complained : complain .nestsTooDeeply s' = .ok () s'') :
    attempting one s = .ok none s'' := by
  have mapped : (some <$> one) s = .error e s' := by
    show EStateM.map some one s = _
    unfold EStateM.map
    rw [failed]
  show EStateM.tryCatch (some <$> one) _ s = _
  unfold EStateM.tryCatch
  rw [mapped]
  exact bind_run_ok complained

theorem walks_attempting {one : ParseM (Option Stmt)} (h : ProceedsOnward n room one) (s : State)
    (left : s.rest ≠ []) : ∃ looks, Walk (attempting one) s looks (attempting one s) := by
  obtain ⟨looks, walk⟩ := h.walks s left
  cases hone : one s with
  | ok r s₁ =>
    rcases attempting_run one s with ⟨r', s₁', hone', run⟩ | ⟨e, s₁', _, _, hone', -⟩
    · rw [hone'] at walk
      rw [run]
      exact ⟨_, .attempted walk⟩
    · rw [hone] at hone'
      cases hone'
  | error e s₁ =>
    obtain ⟨d, s₂, complained, -⟩ := complains_complain .nestsTooDeeply s₁
    rw [hone] at walk
    rw [attempting_error hone complained]
    exact ⟨_, .abandoned walk complained⟩

end ProceedsOnward

end ContractScript.Parser
