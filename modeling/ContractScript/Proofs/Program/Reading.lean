/-
What a production may read, and how readings combine.

`Sound n p L` says that on fewer than `n` tokens every quiet reading of `p` is one
that `L` allows: if `p` ends with a result and adds no report, then the tokens it
took, the tokens it left and the result are related by `L`. It also says that `p`
only moves forward, never loses a report, and reports a fault before giving up.
The bound is there for repetitions, which are counted down and must not run out
of rounds before the tokens do.

This is closed under everything that productions are built from, so later files
never look inside a state.
-/
import ContractScript.Proofs.Program.Lookahead

set_option autoImplicit false

namespace ContractScript.Parser

open Grammar (StartsWith EndsIn MessageNext)

variable {α β : Type}

/-! ## Single steps -/

/-- No first token has a result. -/
def Refuses (f : Token → Option α) (ts : List Token) : Prop :=
  ∀ t rest, ts = t :: rest → f t = none

/-- The test that taking a token of a kind makes. -/
def ofKind (kind : Token.Kind) (t : Token) : Option Token :=
  if t.kind == kind then some t else none

theorem ofKind_eq_some {kind : Token.Kind} {t u : Token} :
    ofKind kind t = some u ↔ t = u ∧ t.kind = kind := by
  unfold ofKind
  split
  · rename_i h
    simp [eq_of_beq h]
  · rename_i h
    simp only [beq_iff_eq] at h
    simp [h]

theorem refuses_ofKind {kind : Token.Kind} {ts : List Token} :
    Refuses (ofKind kind) ts ↔ ¬StartsWith kind ts := by
  constructor
  · rintro h ⟨t, rest, rfl, hk⟩
    have hn := h t rest rfl
    rw [ofKind_eq_some.mpr ⟨rfl, hk⟩] at hn
    cases hn
  · intro h t rest ht
    cases hf : ofKind kind t with
    | none => rfl
    | some u => exact absurd ⟨t, rest, ht, (ofKind_eq_some.mp hf).2⟩ h

/-- Taking a token either takes the first one, or leaves everything as it is. -/
theorem acceptMap_cases (f : Token → Option α) (s : State) :
    (∃ t rest a s', s.rest = t :: rest ∧ f t = some a ∧ acceptMap f s = .ok (some a) s' ∧
      s'.rest = rest ∧ s'.reports = s.reports) ∨
    (Refuses f s.rest ∧ acceptMap f s = .ok none s) := by
  obtain ⟨ts, total, bound, ending, reports⟩ := s
  cases ts with
  | nil => exact .inr ⟨fun t rest h => (List.cons_ne_nil t rest h.symm).elim, rfl⟩
  | cons t rest =>
    have taken : acceptMap f ⟨t :: rest, total, bound, ending, reports⟩
        = taking (f t) ⟨t :: rest, total, bound, ending, reports⟩ := rfl
    cases hf : f t with
    | some a =>
      rw [hf] at taken
      exact .inl ⟨t, rest, a, _, rfl, hf, taken, rfl, rfl⟩
    | none =>
      rw [hf] at taken
      refine .inr ⟨?_, taken⟩
      intro t' rest' h
      cases h
      exact hf

/-- Adding a report and doing nothing else. -/
def Complains (complaint : Complaint) (x : ParseM Unit) : Prop :=
  ∀ s, ∃ d s', x s = .ok () s' ∧ s'.rest = s.rest ∧ s'.reports = d :: s.reports ∧
    d.complaint = complaint

theorem complains_complainAt (t : Token) (complaint : Complaint) :
    Complains complaint (complainAt t complaint) :=
  fun _ => ⟨_, _, rfl, rfl, rfl, rfl⟩

theorem complains_complain (complaint : Complaint) : Complains complaint (complain complaint) := by
  rintro ⟨ts, total, bound, ending, reports⟩
  cases ts with
  | nil => exact ⟨_, _, rfl, rfl, rfl, rfl⟩
  | cons t rest => exact ⟨_, _, rfl, rfl, rfl, rfl⟩

/-- Asking only whether a token was taken. -/
theorem accepted_bind (kind : Token.Kind) (g : Bool → ParseM β) :
    accepted kind >>= g = accept kind >>= fun r => g r.isSome := by
  unfold accepted
  rw [bind_assoc]
  simp only [pure_bind]

/-- Looking at the next kind changes nothing. -/
theorem check_run (kind : Token.Kind) (s : State) :
    ∃ b, check kind s = .ok b s ∧ (b = true ↔ StartsWith kind s.rest) := by
  obtain ⟨ts, total, bound, ending, reports⟩ := s
  cases ts with
  | nil => exact ⟨false, rfl, by simp [StartsWith]⟩
  | cons t rest => exact ⟨t.kind == kind, rfl, by simp [StartsWith]⟩

theorem messageNext_run (ends : List Token.Kind) (s : State) :
    ∃ b, messageNext ends s = .ok b s ∧ (b = true ↔ MessageNext ends s.rest) := by
  obtain ⟨ts, total, bound, ending, reports⟩ := s
  match ts with
  | [] => exact ⟨false, rfl, by simp [MessageNext]⟩
  | [t] => exact ⟨false, rfl, by simp [MessageNext, EndsIn, StartsWith]⟩
  | t :: next :: rest =>
    refine ⟨t.kind == .text && ends.contains next.kind, rfl, ?_⟩
    rw [Bool.and_eq_true, beq_iff_eq, List.contains_iff_mem]
    constructor
    · rintro ⟨hk, hmem⟩
      exact ⟨t, next :: rest, rfl, hk, next.kind, hmem, next, rest, rfl, rfl⟩
    · rintro ⟨_, _, h, hk, kind, hmem, _, _, h', rfl⟩
      cases h
      cases h'
      exact ⟨hk, hmem⟩

/-! ## Moving forward -/

/-- One state can come after another: tokens are only taken and reports only added. -/
structure State.Later (s s' : State) : Prop where
  rest : s'.rest <:+ s.rest
  reports : s.reports.length ≤ s'.reports.length

theorem State.Later.refl (s : State) : s.Later s :=
  ⟨List.suffix_refl _, Nat.le_refl _⟩

theorem State.Later.trans {s₁ s₂ s₃ : State} (h : s₁.Later s₂) (h' : s₂.Later s₃) :
    s₁.Later s₃ :=
  ⟨h'.rest.trans h.rest, Nat.le_trans h.reports h'.reports⟩

/-- Where no token was taken only the reports count. -/
theorem State.Later.ofRest {s s' : State} (hrest : s'.rest = s.rest)
    (h : s.reports.length ≤ s'.reports.length) : s.Later s' :=
  ⟨hrest ▸ List.suffix_refl _, h⟩

/-- A production only moves forward, and gives up for a fault only after reporting it. -/
def Steady (p : ParseM α) : Prop :=
  ∀ s, match p s with
    | .ok _ s' => s.Later s'
    | .error .fault s' => s.Later s' ∧ s.reports.length < s'.reports.length
    | .error .depth s' => s.Later s'

theorem Steady.of_ok {p : ParseM α} (h : Steady p) {s s' : State} {a : α}
    (hp : p s = .ok a s') : s.Later s' := by
  have hs := h s
  rw [hp] at hs
  exact hs

theorem Steady.of_error {p : ParseM α} (h : Steady p) {s s' : State} {stop : Stop}
    (hp : p s = .error stop s') : s.Later s' := by
  have hs := h s
  rw [hp] at hs
  cases stop with
  | fault => exact hs.1
  | depth => exact hs

theorem Steady.of_fault {p : ParseM α} (h : Steady p) {s s' : State}
    (hp : p s = .error .fault s') : s.reports.length < s'.reports.length := by
  have hs := h s
  rw [hp] at hs
  exact hs.2

/-- The result of a sequence is the result of its second part, from where the first one ends. -/
theorem bind_run_ok {x : ParseM α} {f : α → ParseM β} {s s' : State} {a : α}
    (h : x s = .ok a s') : (x >>= f) s = f a s' := by
  show EStateM.bind x f s = _
  simp only [EStateM.bind, h]

theorem bind_run_error {x : ParseM α} {f : α → ParseM β} {s s' : State} {e : Stop}
    (h : x s = .error e s') : (x >>= f) s = .error e s' := by
  show EStateM.bind x f s = _
  simp only [EStateM.bind, h]

theorem Steady.bind {x : ParseM α} {f : α → ParseM β} (hx : Steady x)
    (hf : ∀ a, Steady (f a)) : Steady (x >>= f) := by
  intro s
  cases hr : x s with
  | ok a s₁ =>
    have first := hx.of_ok hr
    rw [bind_run_ok hr]
    cases hr' : f a s₁ with
    | ok b s₂ => exact first.trans ((hf a).of_ok hr')
    | error stop s₂ =>
      -- a report of the second part comes on top of those of the first
      have second := (hf a).of_error hr'
      cases stop with
      | fault => exact ⟨first.trans second, Nat.lt_of_le_of_lt first.reports ((hf a).of_fault hr')⟩
      | depth => exact first.trans second
  | error stop s₁ =>
    rw [bind_run_error hr]
    cases stop with
    | fault => exact ⟨hx.of_error hr, hx.of_fault hr⟩
    | depth => exact hx.of_error hr

theorem skip_suffix (previous : Token.Kind) (rest : List Token) : skip previous rest <:+ rest := by
  induction rest generalizing previous with
  | nil => exact List.suffix_refl _
  | cons t rest ih =>
    rw [skip]
    split
    · exact List.suffix_refl _
    · exact (ih t.kind).trans (List.suffix_cons t rest)

theorem recover_suffix (rest : List Token) : recover rest <:+ rest := by
  cases rest with
  | nil => exact List.suffix_refl _
  | cons t rest => exact (skip_suffix t.kind rest).trans (List.suffix_cons t rest)

/-- A reported fault is caught where a declaration starts; running out of levels is not. -/
theorem recovering_run (p : ParseM (Option Stmt)) (s : State) :
    recovering p s = match p s with
      | .ok a s' => .ok a s'
      | .error .fault s' => .ok none (s'.goTo (recover s'.rest) (length_recover_le s'.rest))
      | .error .depth s' => .error .depth s' := by
  show EStateM.tryCatch p _ s = _
  unfold EStateM.tryCatch
  cases p s with
  | ok a s' => rfl
  | error stop s' => cases stop <;> rfl

/-! ## Sound readings -/

/-- What a production may read: the tokens it takes, the tokens it leaves, the result. -/
abbrev Lang (α : Type) := List Token → List Token → α → Prop

/-- One reading after another. -/
def Lang.andThen (L : Lang α) (M : α → Lang β) : Lang β :=
  fun used after b => ∃ a u v, used = u ++ v ∧ L u (v ++ after) a ∧ M a v after b

/-- Every quiet reading on fewer than `n` tokens is one that `L` allows. -/
structure Sound (n : Nat) (p : ParseM α) (L : Lang α) : Prop where
  steady : Steady p
  reads : ∀ s a s', s.rest.length < n → p s = .ok a s' →
    s'.reports.length = s.reports.length → ∃ used, s.rest = used ++ s'.rest ∧ L used s'.rest a

namespace Sound

variable {n : Nat} {p : ParseM α} {L M : Lang α}

theorem mono (h : Sound n p L) (weaker : ∀ used after a, L used after a → M used after a) :
    Sound n p M := by
  refine ⟨h.steady, fun s a s' hn hp hq => ?_⟩
  obtain ⟨used, split, hL⟩ := h.reads s a s' hn hp hq
  exact ⟨used, split, weaker _ _ _ hL⟩

theorem pure (a : α) : Sound n (pure a) (fun used _ b => used = [] ∧ b = a) := by
  refine ⟨fun s => State.Later.refl s, fun s b s' _ hp _ => ?_⟩
  cases hp
  exact ⟨[], rfl, rfl, rfl⟩

/-- Running out of levels is no reading, so it meets every demand. -/
theorem outOfLevels : Sound n (throw .depth : ParseM α) L :=
  ⟨fun s => State.Later.refl s, fun _ _ _ _ hp => by cases hp⟩

/-- The second part of a sequence has to cope with what the first one leaves. -/
theorem bindWithin {m : Nat} {x : ParseM α} {f : α → ParseM β} {N : α → Lang β}
    (hx : Sound n x L) (hf : ∀ a, Sound m (f a) (N a))
    (leaves : ∀ used after a, L used after a → used.length + after.length < n → after.length < m) :
    Sound n (x >>= f) (L.andThen N) := by
  refine ⟨hx.steady.bind fun a => (hf a).steady, fun s b s'' hn hp hq => ?_⟩
  cases hr : x s with
  | error stop s₁ =>
    rw [bind_run_error hr] at hp
    cases hp
  | ok a s' =>
    rw [bind_run_ok hr] at hp
    -- neither part can have reported, since reports are never taken back
    have first := (hx.steady.of_ok hr).reports
    have second := ((hf a).steady.of_ok hp).reports
    obtain ⟨u, hu, hL⟩ := hx.reads s a s' hn hr (by omega)
    have shorter : s'.rest.length < m := by
      rw [hu, List.length_append] at hn
      exact leaves _ _ _ hL hn
    obtain ⟨v, hv, hN⟩ := (hf a).reads s' b s'' shorter hp (by omega)
    refine ⟨u ++ v, by rw [hu, hv, List.append_assoc], a, u, v, rfl, ?_, hN⟩
    rwa [← hv]

theorem bind {x : ParseM α} {f : α → ParseM β} {N : α → Lang β} (hx : Sound n x L)
    (hf : ∀ a, Sound n (f a) (N a)) : Sound n (x >>= f) (L.andThen N) :=
  hx.bindWithin hf fun _ _ _ _ h => by omega

/-- A first part that takes tokens leaves fewer for the second. -/
theorem bindTaking {x : ParseM α} {f : α → ParseM β} {N : α → Lang β} (hx : Sound n x L)
    (taken : ∀ used after a, L used after a → used ≠ [])
    (hf : ∀ a, Sound (n - 1) (f a) (N a)) : Sound n (x >>= f) (L.andThen N) := by
  refine hx.bindWithin hf fun used after a hL h => ?_
  have pos := List.length_pos_iff.mpr (taken used after a hL)
  omega

/-- A production that depends on whether the next token has a result. -/
theorem acceptMap {f : Token → Option α} {g : Option α → ParseM β} {N : Token → α → Lang β}
    {M : Lang β} (hsome : ∀ t a, f t = some a → Sound (n - 1) (g (some a)) (N t a))
    (hnone : Sound n (g none) M) :
    Sound n (Parser.acceptMap f >>= g) (fun used after b =>
      (∃ t a u, used = t :: u ∧ f t = some a ∧ N t a u after b) ∨
      (Refuses f (used ++ after) ∧ M used after b)) := by
  constructor
  · intro s
    rcases acceptMap_cases f s with ⟨t, rest, a, s₁, hs, hf, run, hrest, hreports⟩ | ⟨-, run⟩
    · have later : s.Later s₁ := ⟨by rw [hs, hrest]; exact List.suffix_cons t rest,
          Nat.le_of_eq (by rw [hreports])⟩
      rw [bind_run_ok run]
      cases hr : g (some a) s₁ with
      | ok b s₂ => exact later.trans ((hsome t a hf).steady.of_ok hr)
      | error stop s₂ =>
        have after := later.trans ((hsome t a hf).steady.of_error hr)
        cases stop with
        | fault => exact ⟨after, Nat.lt_of_le_of_lt later.reports ((hsome t a hf).steady.of_fault hr)⟩
        | depth => exact after
    · rw [bind_run_ok run]
      exact hnone.steady s
  · intro s b s' hn hp hq
    rcases acceptMap_cases f s with
      ⟨t, rest, a, s₁, hs, hf, run, hrest, hreports⟩ | ⟨refuses, run⟩
    · rw [bind_run_ok run] at hp
      -- the token that was taken makes up for the smaller bound
      have shorter : s₁.rest.length < n - 1 := by
        rw [hs, List.length_cons] at hn
        rw [hrest]
        omega
      obtain ⟨u, hu, hN⟩ := (hsome t a hf).reads s₁ b s' shorter hp (by rw [hreports]; exact hq)
      exact ⟨t :: u, by rw [hs, ← hrest, hu]; rfl, .inl ⟨t, a, u, rfl, hf, hN⟩⟩
    · rw [bind_run_ok run] at hp
      obtain ⟨u, hu, hM⟩ := hnone.reads s b s' hn hp hq
      exact ⟨u, hu, .inr ⟨by rwa [← hu], hM⟩⟩

/-- A production that depends on whether the next token is of a kind. -/
theorem accept {kind : Token.Kind} {g : Option Token → ParseM β} {N : Token → Lang β}
    {M : Lang β} (hsome : ∀ t, t.kind = kind → Sound (n - 1) (g (some t)) (N t))
    (hnone : Sound n (g none) M) :
    Sound n (Parser.accept kind >>= g) (fun used after b =>
      (∃ t u, used = t :: u ∧ t.kind = kind ∧ N t u after b) ∨
      (¬StartsWith kind (used ++ after) ∧ M used after b)) := by
  have found : ∀ t u, ofKind kind t = some u → Sound (n - 1) (g (some u)) (N u) :=
    fun t u h => hsome u ((ofKind_eq_some.mp h).1 ▸ (ofKind_eq_some.mp h).2)
  refine (Sound.acceptMap (f := ofKind kind) found hnone).mono ?_
  rintro used after b (⟨t, t', u, rfl, hf, hN⟩ | ⟨refuses, hM⟩)
  · obtain ⟨rfl, hk⟩ := ofKind_eq_some.mp hf
    exact .inl ⟨t, u, rfl, hk, hN⟩
  · exact .inr ⟨refuses_ofKind.mp refuses, hM⟩

/-- The same where only the answer is used. -/
theorem accepted {kind : Token.Kind} {g : Bool → ParseM β} {N M : Lang β}
    (hyes : Sound (n - 1) (g true) N) (hno : Sound n (g false) M) :
    Sound n (Parser.accepted kind >>= g) (fun used after b =>
      (∃ t u, used = t :: u ∧ t.kind = kind ∧ N u after b) ∨
      (¬StartsWith kind (used ++ after) ∧ M used after b)) := by
  rw [accepted_bind]
  exact Sound.accept (fun _ _ => hyes) hno

/-- Whether a kind is next is found out without taking anything. -/
theorem check (kind : Token.Kind) :
    Sound n (Parser.check kind) (fun used after b => used = [] ∧ (b = true ↔ StartsWith kind after)) := by
  constructor
  · intro s
    obtain ⟨b, run, -⟩ := check_run kind s
    rw [run]
    exact State.Later.refl s
  · intro s b s' _ hp _
    obtain ⟨b', run, hb⟩ := check_run kind s
    rw [run] at hp
    cases hp
    exact ⟨[], rfl, rfl, hb⟩

/-! ### Reports -/

/-- A step that reports is never quiet. -/
theorem ofReport {x : ParseM Unit} {complaint : Complaint} {M : Lang Unit}
    (h : Complains complaint x) : Sound n x M := by
  constructor
  · intro s
    obtain ⟨d, s', run, hrest, hreports, -⟩ := h s
    rw [run]
    refine .ofRest hrest ?_
    rw [hreports]
    exact Nat.le_succ _
  · intro s a s' _ hp hq
    obtain ⟨d, s₁, run, -, hreports, -⟩ := h s
    rw [run] at hp
    cases hp
    rw [hreports, List.length_cons] at hq
    omega

theorem complainAt (t : Token) (complaint : Complaint) {M : Lang Unit} :
    Sound n (Parser.complainAt t complaint) M :=
  ofReport (complains_complainAt t complaint)

theorem complain (complaint : Complaint) {M : Lang Unit} : Sound n (Parser.complain complaint) M :=
  ofReport (complains_complain complaint)

/-- Giving up after a report. -/
theorem giveUp {x : ParseM Unit} {complaint : Complaint} {M : Lang α} (h : Complains complaint x) :
    Sound n (x >>= fun _ => (throw .fault : ParseM α)) M := by
  constructor
  · intro s
    obtain ⟨d, s', run, hrest, hreports, -⟩ := h s
    have more : s.reports.length < s'.reports.length := by rw [hreports]; exact Nat.lt_succ_self _
    rw [bind_run_ok run]
    exact ⟨.ofRest hrest (Nat.le_of_lt more), more⟩
  · intro s a s' _ hp _
    obtain ⟨d, s₁, run, -⟩ := h s
    rw [bind_run_ok run] at hp
    cases hp

theorem fail (complaint : Complaint) {M : Lang α} : Sound n (Parser.fail complaint) M :=
  giveUp (complains_complain complaint)

theorem complainUnless (holds : Bool) (t : Token) (complaint : Complaint) :
    Sound n (Parser.complainUnless holds t complaint) (fun used _ _ => used = [] ∧ holds = true) := by
  unfold Parser.complainUnless
  split
  · rename_i h
    exact (Sound.pure ()).mono fun _ _ _ hu => ⟨hu.1, h⟩
  · exact complainAt t complaint

theorem limitCount (complaint : Complaint) (count : Nat) :
    Sound n (Parser.limitCount complaint count)
      (fun used _ _ => used = [] ∧ count < maxArguments) := by
  unfold Parser.limitCount
  split
  · exact complain complaint
  · rename_i h
    exact (Sound.pure ()).mono fun _ _ _ hu => ⟨hu.1, by omega⟩

theorem expect (kind : Token.Kind) (what : String) :
    Sound n (Parser.expect kind what) (fun used _ a => used = [a] ∧ a.kind = kind) := by
  refine (Sound.accept (fun t _ => Sound.pure t) (fail (.expect what) (M := fun _ _ _ => False))).mono ?_
  rintro used after a (⟨t, u, rfl, hk, rfl, rfl⟩ | ⟨-, h⟩)
  · exact ⟨rfl, hk⟩
  · exact h.elim

/-! ### Parts that may be missing -/

theorem following {kind : Token.Kind} {next : ParseM α} (h : Sound (n - 1) next L) :
    Sound n (Parser.following kind next) (fun used after r =>
      (∃ t u a, used = t :: u ∧ t.kind = kind ∧ r = some a ∧ L u after a) ∨
      (used = [] ∧ r = none ∧ ¬StartsWith kind after)) := by
  refine (Sound.accepted (h.bind fun a => Sound.pure (some a)) (Sound.pure none)).mono ?_
  rintro used after r (⟨t, u, rfl, hk, a, v, w, rfl, hL, rfl, rfl⟩ | ⟨hs, rfl, rfl⟩)
  · exact .inl ⟨t, v, a, by rw [List.append_nil], hk, rfl, hL⟩
  · exact .inr ⟨rfl, rfl, hs⟩

theorem itemUnless {close : Token.Kind} {item : ParseM α} (h : Sound n item L) :
    Sound n (Parser.itemUnless close item) (fun used after r =>
      (∃ a, r = some a ∧ L used after a) ∨ (used = [] ∧ r = none)) := by
  have body : ∀ b : Bool, Sound n
      (if b = true then Pure.pure none else item >>= fun a => Pure.pure (some a) : ParseM (Option α))
      (fun used after r => (∃ a, r = some a ∧ L used after a) ∨ (used = [] ∧ r = none)) := by
    intro b
    split
    · exact (Sound.pure none).mono fun _ _ _ hu => .inr hu
    · refine (h.bind fun a => Sound.pure (some a)).mono ?_
      rintro used after r ⟨a, u, v, rfl, hL, rfl, rfl⟩
      exact .inl ⟨a, rfl, by rwa [List.append_nil]⟩
  refine ((Sound.check close).bind body).mono ?_
  rintro used after r ⟨b, u, v, rfl, ⟨rfl, -⟩, h⟩
  exact h

/-! ### Repetition -/

/-- A step that looks at how many tokens there were never meets more. -/
theorem total {f : Nat → ParseM α} (h : ∀ m, Sound (m + 1) (f m) L) :
    Sound n (Parser.total >>= f) L := by
  have run : ∀ s, (Parser.total >>= f) s = f s.total s := fun _ => rfl
  refine ⟨fun s => by rw [run]; exact (h s.total).steady s, fun s a s' _ hp hq => ?_⟩
  rw [run] at hp
  exact (h s.total).reads s a s' (Nat.lt_succ_of_le s.rest_le) hp hq

/-- Without rounds nothing can be read, so only moving forward is left to show. -/
theorem noRounds (h : Steady p) : Sound 0 p L :=
  ⟨h, fun _ _ _ hn => absurd hn (Nat.not_lt_zero _)⟩

/-- Items with commas between them, where each item is preceded by a check of how many there
have been. -/
theorem commaSeparated {before : Nat → ParseM Unit} {item : ParseM α} {B : Nat → Prop}
    {G : List Token → α → Prop} {P : α → Prop}
    (hbefore : ∀ n count, Sound n (before count) (fun used _ _ => used = [] ∧ B count))
    (hitem : ∀ n, Sound n item (fun used _ a => G used a ∧ P a)) (rounds : Nat) :
    ∀ count, Sound rounds (Parser.commaSeparated before item rounds count) (fun used _ as =>
      Grammar.Separated G used as ∧ (∀ a ∈ as, P a) ∧ ∀ i < as.length, B (count + i)) := by
  induction rounds with
  | zero => exact fun _ => noRounds (Sound.pure (n := 0) []).steady
  | succ rounds ih =>
    intro count
    refine Sound.mono (Sound.bind (hbefore _ count) fun _ => Sound.bind (hitem _) fun a =>
      Sound.accepted (Sound.bind (ih (count + 1)) fun as => Sound.pure (a :: as))
        (Sound.pure [a])) ?_
    -- this round reads the item at `count`, the rounds behind a comma those from `count + 1` on
    rintro used after as ⟨_, u, v, rfl, ⟨rfl, hB⟩, a, us, vs, rfl, ⟨hG, hP⟩, h⟩
    rcases h with ⟨comma, w, rfl, hk, as', ws, xs, rfl, ⟨hsep, hall, hcount⟩, rfl, rfl⟩ | ⟨-, rfl, rfl⟩
    · rw [List.append_nil]
      refine ⟨.more hG hk hsep, ?_, ?_⟩
      · intro b hb
        rcases List.mem_cons.mp hb with rfl | hb
        · exact hP
        · exact hall b hb
      · intro i hi
        cases i with
        | zero => exact hB
        | succ i =>
          rw [List.length_cons] at hi
          have hi' := hcount i (by omega)
          rwa [Nat.add_assoc, Nat.add_comm 1 i] at hi'
    · rw [List.append_nil]
      refine ⟨.one hG, ?_, ?_⟩
      · intro b hb
        rw [List.mem_singleton.mp hb]
        exact hP
      · intro i hi
        have : i = 0 := by simpa using hi
        subst this
        exact hB

theorem itemsUntil {close : Token.Kind} {before : Nat → ParseM Unit} {item : ParseM α}
    {B : Nat → Prop} {G : List Token → α → Prop} {P : α → Prop}
    (hbefore : ∀ n count, Sound n (before count) (fun used _ _ => used = [] ∧ B count))
    (hitem : ∀ n, Sound n item (fun used _ a => G used a ∧ P a)) :
    Sound n (Parser.itemsUntil close before item) (fun used _ as =>
      Grammar.Items G used as ∧ (∀ a ∈ as, P a) ∧ ∀ i < as.length, B i) := by
  have body : ∀ b : Bool, Sound n
      (if b = true then Pure.pure [] else
        Parser.total >>= fun m => Parser.commaSeparated before item (m + 1) 0 : ParseM (List α))
      (fun used _ as => Grammar.Items G used as ∧ (∀ a ∈ as, P a) ∧ ∀ i < as.length, B i) := by
    intro b
    split
    · refine (Sound.pure []).mono ?_
      rintro used after as ⟨rfl, rfl⟩
      exact ⟨.none, fun a ha => (List.not_mem_nil ha).elim, fun i hi => (Nat.not_lt_zero i hi).elim⟩
    · -- there are more rounds than tokens
      refine (Sound.total fun m => commaSeparated hbefore hitem (m + 1) 0).mono ?_
      rintro used after as ⟨hsep, hall, hcount⟩
      exact ⟨.some hsep, hall, fun i hi => by simpa using hcount i hi⟩
  refine ((Sound.check close).bind body).mono ?_
  rintro used after as ⟨b, u, v, rfl, ⟨rfl, -⟩, h⟩
  exact h

/-! ### Looking ahead and recovering -/

theorem current? : Sound n Parser.current? (fun used after r => used = [] ∧ r = after.head?) := by
  refine ⟨fun s => State.Later.refl s, fun s r s' _ hp _ => ?_⟩
  cases hp
  exact ⟨[], rfl, rfl, rfl⟩

/-- Recovery happens after a report, so it adds no quiet reading. -/
theorem recovering {p : ParseM (Option Stmt)} {L : Lang (Option Stmt)} (h : Sound n p L) :
    Sound n (Parser.recovering p) L := by
  constructor
  · intro s
    rw [recovering_run]
    cases hp : p s with
    | ok a s' => exact h.steady.of_ok hp
    | error stop s' =>
      have later := h.steady.of_error hp
      cases stop with
      | fault => exact later.trans ⟨recover_suffix s'.rest, Nat.le_refl _⟩
      | depth => exact later
  · intro s r s' hn hr hq
    rw [recovering_run] at hr
    cases hp : p s with
    | ok a s₁ =>
      rw [hp] at hr
      cases hr
      exact h.reads s _ _ hn hp hq
    | error stop s₁ =>
      rw [hp] at hr
      cases stop with
      | fault =>
        -- the fault was reported, so this reading is not quiet
        cases hr
        have reported := h.steady.of_fault hp
        exact absurd hq (Nat.ne_of_gt reported)
      | depth => cases hr

end Sound

/-! ## Programs -/

theorem attempting_run (one : ParseM (Option Stmt)) (s : State) :
    (∃ r s', one s = .ok r s' ∧ attempting one s = .ok (some r) s') ∨
    (∃ stop s' s'' d, one s = .error stop s' ∧ attempting one s = .ok none s'' ∧
      s''.rest = s'.rest ∧ s''.reports = d :: s'.reports ∧ d.complaint = .nestsTooDeeply) := by
  have mapped : (some <$> one) s = match one s with
      | .ok r s' => .ok (some r) s'
      | .error stop s' => .error stop s' := by
    show EStateM.map some one s = _
    unfold EStateM.map
    cases one s <;> rfl
  have run : attempting one s = match one s with
      | .ok r s' => .ok (some r) s'
      | .error _ s' => (complain .nestsTooDeeply >>= fun _ => pure none) s' := by
    show EStateM.tryCatch (some <$> one) _ s = _
    unfold EStateM.tryCatch
    rw [mapped]
    cases one s <;> rfl
  cases h : one s with
  | ok r s' => exact .inl ⟨r, s', rfl, by rw [run, h]⟩
  | error stop s' =>
    obtain ⟨d, s'', hc, hrest, hreports, hd⟩ := complains_complain .nestsTooDeeply s'
    exact .inr ⟨stop, s', s'', d, rfl, by rw [run, h]; exact bind_run_ok hc, hrest, hreports, hd⟩

/-- What follows a declaration that was attempted. -/
theorem declarations_run (one : ParseM (Option Stmt)) (rounds : Nat) {s : State} {t : Token}
    {rest : List Token} (hs : s.rest = t :: rest) :
    (∃ r s₁, one s = .ok r s₁ ∧ ∀ p s₂, declarations one rounds s₁ = .ok p s₂ →
      declarations one (rounds + 1) s = .ok (r.toList ++ p) s₂) ∨
    (∃ stop s₁ s₂ d, one s = .error stop s₁ ∧ declarations one (rounds + 1) s = .ok [] s₂ ∧
      s₂.reports = d :: s₁.reports ∧ d.complaint = .nestsTooDeeply) := by
  obtain ⟨ts, total, bound, ending, reports⟩ := s
  cases hs
  rcases attempting_run one ⟨t :: rest, total, bound, ending, reports⟩ with
    ⟨r, s₁, hone, run⟩ | ⟨stop, s₁, s₂, d, hone, run, -, hreports, hd⟩
  · refine .inl ⟨r, s₁, hone, fun p s₂ hp => ?_⟩
    rw [declarations]
    exact (bind_run_ok run).trans (bind_run_ok hp)
  · refine .inr ⟨stop, s₁, s₂, d, hone, ?_, hreports, hd⟩
    rw [declarations]
    exact bind_run_ok run

theorem declarations_nil {one : ParseM (Option Stmt)} {rounds : Nat} {s : State}
    (hs : s.rest = []) : declarations one rounds s = .ok [] s := by
  obtain ⟨ts, total, bound, ending, reports⟩ := s
  cases hs
  cases rounds <;> rfl

/-- Reading a program ends with a program, whatever the tokens are. -/
theorem declarations_total (one : ParseM (Option Stmt)) (rounds : Nat) :
    ∀ s, ∃ p s', declarations one rounds s = .ok p s' := by
  induction rounds with
  | zero => exact fun s => ⟨[], s, rfl⟩
  | succ rounds ih =>
    intro s
    cases hs : s.rest with
    | nil => exact ⟨[], s, declarations_nil hs⟩
    | cons t rest =>
      rcases declarations_run one rounds hs with ⟨r, s₁, -, run⟩ | ⟨-, -, s₂, -, -, run, -⟩
      · obtain ⟨p, s₂, hp⟩ := ih s₁
        exact ⟨r.toList ++ p, s₂, run p s₂ hp⟩
      · exact ⟨[], s₂, run⟩

end ContractScript.Parser
