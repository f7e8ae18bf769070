/-
What a production certainly reads, and how that combines.

`Delivers deep fine p used after a` says that wherever `used` is next and `after`
behind it, `p` takes exactly `used` and results in `a`, without a report if `fine`; or
else it runs out of levels, and nests `deep`. It is the other direction of `Sound`:
there a reading was given and explained, here the tokens are given and a reading is
promised. What is read never depends on whether it is also fine, since the faults that
a derivable program can have are reported without giving up.
-/
import ContractScript.Proofs.Program.Reading

set_option autoImplicit false

namespace ContractScript.Parser

open Grammar (StartsWith)

variable {α β : Type}

/-- Where `used` and then `after` are next, a production takes `used` and results in `a`, or runs
out of levels, which only happens if `deep`. It adds no report if `fine`. -/
def Delivers (deep fine : Prop) (p : ParseM α) (used after : List Token) (a : α) : Prop :=
  ∀ s : State, s.rest = used ++ after → match p s with
    | .ok b s' => b = a ∧ s'.rest = after ∧ (fine → s'.reports = s.reports)
    | .error stop _ => deep ∧ stop = .depth

namespace Delivers

variable {deep fine : Prop} {used u v after : List Token} {a : α} {b : β}

/-- A production that has levels enough for what is next does not run out of them. -/
theorem endures {p : ParseM α} (h : Delivers deep fine p used after a)
    (enough : ∀ s s' : State, s.rest = used ++ after → p s ≠ .error .depth s') :
    Delivers False fine p used after a := by
  intro s hs
  have hp := h s hs
  cases hr : p s with
  | ok b s' =>
    rw [hr] at hp
    exact hp
  | error stop s' =>
    rw [hr] at hp
    obtain ⟨-, rfl⟩ := hp
    exact absurd hr (enough s s' hs)

theorem weaken {fine' : Prop} {p : ParseM α} (h : Delivers deep fine p used after a)
    (himp : fine' → fine) : Delivers deep fine' p used after a := by
  intro s hs
  have hp := h s hs
  cases hr : p s with
  | ok b s' =>
    rw [hr] at hp
    exact ⟨hp.1, hp.2.1, fun hf => hp.2.2 (himp hf)⟩
  | error stop s' =>
    rw [hr] at hp
    exact hp

/-- A step that changes nothing. -/
theorem ofStill {p : ParseM α} (h : ∀ s : State, s.rest = after → p s = .ok a s) :
    Delivers deep fine p [] after a := by
  intro s hs
  rw [h s hs]
  exact ⟨rfl, hs, fun _ => rfl⟩

theorem pure (a : α) : Delivers deep fine (pure a : ParseM α) [] after a :=
  ofStill fun _ _ => rfl

theorem outOfLevels (h : deep) : Delivers deep fine (throw .depth : ParseM α) used after a :=
  fun _ _ => ⟨h, rfl⟩

theorem bind {x : ParseM α} {f : α → ParseM β} (hx : Delivers deep fine x u (v ++ after) a)
    (hf : Delivers deep fine (f a) v after b) : Delivers deep fine (x >>= f) (u ++ v) after b := by
  intro s hs
  have first := hx s (by rw [hs, List.append_assoc])
  cases hr : x s with
  | error stop s' =>
    rw [hr] at first
    rw [bind_run_error hr]
    exact first
  | ok a' s' =>
    rw [hr] at first
    obtain ⟨rfl, hrest, hquiet⟩ := first
    have second := hf s' hrest
    rw [bind_run_ok hr]
    cases hr' : f a' s' with
    | error stop s'' =>
      rw [hr'] at second
      exact second
    | ok b' s'' =>
      rw [hr'] at second
      exact ⟨second.1, second.2.1, fun hfine => (second.2.2 hfine).trans (hquiet hfine)⟩

/-- A last part that takes nothing. -/
theorem bindLast {x : ParseM α} {f : α → ParseM β} (hx : Delivers deep fine x used after a)
    (hf : Delivers deep fine (f a) [] after b) : Delivers deep fine (x >>= f) used after b := by
  have h : Delivers deep fine (x >>= f) (used ++ []) after b := hx.bind hf
  rwa [List.append_nil] at h

theorem bindPure {x : ParseM α} {f : α → β} (hx : Delivers deep fine x used after a) :
    Delivers deep fine (x >>= fun a => Pure.pure (f a)) used after (f a) :=
  hx.bindLast (pure (f a))

/-- A first part that only looks. -/
theorem bindStill {x : ParseM α} {f : α → ParseM β} (hx : Delivers deep fine x [] (used ++ after) a)
    (hf : Delivers deep fine (f a) used after b) : Delivers deep fine (x >>= f) used after b :=
  hx.bind hf

/-! ### Single tokens -/

theorem acceptMap_some {f : Token → Option α} {g : Option α → ParseM β} {t : Token}
    (ht : f t = some a) (hg : Delivers deep fine (g (some a)) used after b) :
    Delivers deep fine (Parser.acceptMap f >>= g) (t :: used) after b := by
  intro s hs
  rcases acceptMap_cases f s with ⟨t', rest, a', s', hs', hf, run, hrest, hreports⟩ | ⟨hno, -⟩
  · rw [hs'] at hs
    cases hs
    rw [ht] at hf
    cases hf
    rw [bind_run_ok run]
    have h := hg s' hrest
    rwa [hreports] at h
  · rw [hno t _ hs] at ht
    cases ht

theorem acceptMap_none {f : Token → Option α} {g : Option α → ParseM β}
    (ht : Refuses f (used ++ after)) (hg : Delivers deep fine (g none) used after b) :
    Delivers deep fine (Parser.acceptMap f >>= g) used after b := by
  intro s hs
  rcases acceptMap_cases f s with ⟨t, rest, a, s', hs', hf, -⟩ | ⟨-, run⟩
  · rw [ht t rest (hs ▸ hs')] at hf
    cases hf
  · rw [bind_run_ok run]
    exact hg s hs

theorem accept_some {kind : Token.Kind} {g : Option Token → ParseM β} {t : Token}
    (ht : t.kind = kind) (hg : Delivers deep fine (g (some t)) used after b) :
    Delivers deep fine (Parser.accept kind >>= g) (t :: used) after b :=
  acceptMap_some (f := ofKind kind) (ofKind_eq_some.mpr ⟨rfl, ht⟩) hg

theorem accept_none {kind : Token.Kind} {g : Option Token → ParseM β}
    (hno : ¬StartsWith kind (used ++ after)) (hg : Delivers deep fine (g none) used after b) :
    Delivers deep fine (Parser.accept kind >>= g) used after b :=
  acceptMap_none (f := ofKind kind) (refuses_ofKind.mpr hno) hg

theorem accepted_yes {kind : Token.Kind} {g : Bool → ParseM β} {t : Token}
    (ht : t.kind = kind) (hg : Delivers deep fine (g true) used after b) :
    Delivers deep fine (Parser.accepted kind >>= g) (t :: used) after b := by
  rw [accepted_bind]
  exact accept_some ht hg

theorem accepted_no {kind : Token.Kind} {g : Bool → ParseM β}
    (hno : ¬StartsWith kind (used ++ after)) (hg : Delivers deep fine (g false) used after b) :
    Delivers deep fine (Parser.accepted kind >>= g) used after b := by
  rw [accepted_bind]
  exact accept_none hno hg

/-- A token of another kind is next. -/
theorem skipAccept {kind : Token.Kind} {g : Option Token → ParseM β} {t : Token}
    (hk : t.kind ≠ kind) (hg : Delivers deep fine (g none) (t :: used) after b) :
    Delivers deep fine (Parser.accept kind >>= g) (t :: used) after b :=
  accept_none (Grammar.not_startsWith_cons hk) hg

theorem skipAccepted {kind : Token.Kind} {g : Bool → ParseM β} {t : Token}
    (hk : t.kind ≠ kind) (hg : Delivers deep fine (g false) (t :: used) after b) :
    Delivers deep fine (Parser.accepted kind >>= g) (t :: used) after b :=
  accepted_no (Grammar.not_startsWith_cons hk) hg

theorem expect {kind : Token.Kind} {what : String} {t : Token} (ht : t.kind = kind) :
    Delivers deep fine (Parser.expect kind what) [t] after t :=
  accept_some ht (pure t)

/-- A token that has to be next, and what follows it. -/
theorem expecting {kind : Token.Kind} {what : String} {t : Token} {f : Token → ParseM β}
    (ht : t.kind = kind) (hf : Delivers deep fine (f t) used after b) :
    Delivers deep fine (Parser.expect kind what >>= f) (t :: used) after b :=
  (expect ht : Delivers deep fine (Parser.expect kind what) [t] (used ++ after) t).bind hf

theorem check_yes {kind : Token.Kind} (h : StartsWith kind after) :
    Delivers deep fine (Parser.check kind) [] after true := by
  refine ofStill fun s hs => ?_
  obtain ⟨b, run, hb⟩ := check_run kind s
  rw [run, hb.mpr (hs ▸ h)]

theorem check_no {kind : Token.Kind} (h : ¬StartsWith kind after) :
    Delivers deep fine (Parser.check kind) [] after false := by
  refine ofStill fun s hs => ?_
  obtain ⟨b, run, hb⟩ := check_run kind s
  cases b with
  | false => exact run
  | true => exact absurd (hs ▸ hb.mp rfl) h

theorem messageNext_yes {ends : List Token.Kind} (h : Grammar.MessageNext ends after) :
    Delivers deep fine (Parser.messageNext ends) [] after true := by
  refine ofStill fun s hs => ?_
  obtain ⟨b, run, hb⟩ := messageNext_run ends s
  rw [run, hb.mpr (hs ▸ h)]

theorem messageNext_no {ends : List Token.Kind} (h : ¬Grammar.MessageNext ends after) :
    Delivers deep fine (Parser.messageNext ends) [] after false := by
  refine ofStill fun s hs => ?_
  obtain ⟨b, run, hb⟩ := messageNext_run ends s
  cases b with
  | false => exact run
  | true => exact absurd (hs ▸ hb.mp rfl) h

theorem current? : Delivers deep fine Parser.current? [] after after.head? :=
  ofStill fun s hs => by rw [← hs]; rfl

/-! ### Reports -/

theorem complainUnless {holds : Bool} {t : Token} {complaint : Complaint}
    (himp : fine → holds = true) :
    Delivers deep fine (Parser.complainUnless holds t complaint) [] after () := by
  unfold Parser.complainUnless
  split
  · exact pure ()
  · rename_i hno
    intro s hs
    exact ⟨rfl, hs, fun hf => absurd (himp hf) hno⟩

theorem limitCount {complaint : Complaint} {count : Nat} (himp : fine → count < maxArguments) :
    Delivers deep fine (Parser.limitCount complaint count) [] after () := by
  unfold Parser.limitCount
  split
  · rename_i hle
    intro s hs
    obtain ⟨d, s', run, hrest, -⟩ := complains_complain complaint s
    rw [run]
    refine ⟨rfl, hrest.trans hs, fun hf => ?_⟩
    have := himp hf
    omega
  · exact pure ()

/-! ### Parts that may be missing -/

theorem following_some {kind : Token.Kind} {next : ParseM α} {t : Token} (ht : t.kind = kind)
    (h : Delivers deep fine next used after a) :
    Delivers deep fine (Parser.following kind next) (t :: used) after (some a) :=
  accepted_yes ht (bindPure h)

theorem following_none {kind : Token.Kind} {next : ParseM α} (hno : ¬StartsWith kind after) :
    Delivers deep fine (Parser.following kind next) [] after none :=
  accepted_no hno (pure none)

theorem itemUnless_some {close : Token.Kind} {item : ParseM α}
    (hno : ¬StartsWith close (used ++ after)) (h : Delivers deep fine item used after a) :
    Delivers deep fine (Parser.itemUnless close item) used after (some a) :=
  bindStill (check_no hno) (bindPure h)

theorem itemUnless_none {close : Token.Kind} {item : ParseM α} (h : StartsWith close after) :
    Delivers deep fine (Parser.itemUnless close item) [] after none :=
  bindStill (check_yes h) (pure none)

/-! ### Repetition -/

/-- The number of all tokens is no less than the number of those that are next. -/
theorem total {f : Nat → ParseM α}
    (h : ∀ m, (used ++ after).length ≤ m → Delivers deep fine (f m) used after a) :
    Delivers deep fine (Parser.total >>= f) used after a := by
  intro s hs
  have enough : (used ++ after).length ≤ s.total := hs ▸ s.rest_le
  exact h s.total enough s hs

/-- Items with commas between them. The items are read wherever `F` holds of what comes
next, as it does of a comma. -/
theorem commaSeparated {before : Nat → ParseM Unit} {item : ParseM α} {B : Nat → Prop}
    {G : List Token → α → Prop} {P : α → Prop} {F : List Token → Prop}
    (hbefore : ∀ fine count after, (fine → B count) → Delivers deep fine (before count) [] after ())
    (hitem : ∀ ts a after, G ts a → F after → Delivers deep (P a) item ts after a)
    (hcomma : ∀ t rest, t.kind = .comma → F (t :: rest))
    {ts : List Token} {as : List α} (h : Grammar.Separated G ts as) :
    ∀ (rounds count : Nat) (after : List Token), ts.length < rounds → F after →
      ¬StartsWith .comma after →
      Delivers deep ((∀ a ∈ as, P a) ∧ ∀ i < as.length, B (count + i))
        (Parser.commaSeparated before item rounds count) ts after as := by
  -- along the derivation: every comma is a token, so rounds do not run out before the items do
  induction h with
  | @one ts a hG =>
    intro rounds count after hrounds hfollow hno
    obtain ⟨rounds, rfl⟩ : ∃ k, rounds = k + 1 := ⟨rounds - 1, by omega⟩
    refine bindStill (hbefore _ _ _ fun hf => ?_)
      (bindLast (weaken (hitem ts a _ hG hfollow) fun hf => ?_) ?_)
    · exact hf.2 0 Nat.zero_lt_one
    · exact hf.1 a (List.mem_singleton.mpr rfl)
    · exact accepted_no hno (pure [a])
  | @more ts rest comma a as hG hk hrest ih =>
    intro rounds count after hrounds hfollow hno
    obtain ⟨rounds, rfl⟩ : ∃ k, rounds = k + 1 := ⟨rounds - 1, by omega⟩
    rw [List.length_append, List.length_cons] at hrounds
    have tail := ih rounds (count + 1) after (by omega) hfollow hno
    refine bindStill (hbefore _ _ _ fun hf => ?_)
      (bind (weaken (hitem ts a _ hG (hcomma _ _ hk)) fun hf => ?_)
        (accepted_yes hk (bindPure (weaken tail fun hf => ⟨?_, ?_⟩))))
    · exact hf.2 0 (Nat.zero_lt_succ _)
    · exact hf.1 a List.mem_cons_self
    · exact fun b hb => hf.1 b (List.mem_cons_of_mem _ hb)
    · -- the item at `i` behind the comma is the one at `i + 1` of all
      intro i hi
      have hi' := hf.2 (i + 1) (Nat.succ_lt_succ hi)
      rwa [Nat.add_comm i 1, ← Nat.add_assoc] at hi'

/-- Items with commas between them or nothing, before a closing token. -/
theorem itemsUntil {close : Token.Kind} {before : Nat → ParseM Unit} {item : ParseM α}
    {B : Nat → Prop} {G : List Token → α → Prop} {P : α → Prop} {F : List Token → Prop}
    (hbefore : ∀ fine count after, (fine → B count) → Delivers deep fine (before count) [] after ())
    (hitem : ∀ ts a after, G ts a → F after → Delivers deep (P a) item ts after a)
    (hcomma : ∀ t rest, t.kind = .comma → F (t :: rest))
    (hfirst : ∀ ts a rest, G ts a → ¬StartsWith close (ts ++ rest))
    {ts : List Token} {as : List α} (h : Grammar.Items G ts as) (hclose : StartsWith close after)
    (hfollow : F after) (hkind : close ≠ .comma) :
    Delivers deep ((∀ a ∈ as, P a) ∧ ∀ i < as.length, B i)
      (Parser.itemsUntil close before item) ts after as := by
  cases h with
  | none => exact bindStill (check_yes hclose) (pure [])
  | some h =>
    -- what follows is the closing token, so the items end there
    have noComma : ¬StartsWith .comma after := by
      obtain ⟨t, rest, rfl, ht⟩ := hclose
      rintro ⟨t', rest', h', hk⟩
      cases h'
      exact hkind (ht.symm.trans hk)
    -- and what comes next is an item, so they do not end at once
    have noClose : ¬StartsWith close (ts ++ after) := by
      cases h with
      | one hG => exact hfirst _ _ _ hG
      | more hG _ _ =>
        rw [List.append_assoc]
        exact hfirst _ _ _ hG
    refine bindStill (check_no noClose) (total fun m hm => ?_)
    rw [List.length_append] at hm
    refine (commaSeparated hbefore hitem hcomma h (m + 1) 0 after (by omega) hfollow noComma).weaken ?_
    exact fun hf => ⟨hf.1, fun i hi => by rw [Nat.zero_add]; exact hf.2 i hi⟩

/-! ### Recovering -/

/-- There is nothing to recover from. -/
theorem recovering {p : ParseM (Option Stmt)} {r : Option Stmt} (h : Delivers deep fine p used after r) :
    Delivers deep fine (Parser.recovering p) used after r := by
  intro s hs
  have hp := h s hs
  have run : Parser.recovering p s = p s := by
    show EStateM.tryCatch p _ s = _
    unfold EStateM.tryCatch
    cases hr : p s with
    | ok a s' => rfl
    | error stop s' =>
      -- running out of levels is passed on
      rw [hr] at hp
      obtain ⟨-, rfl⟩ := hp
      rfl
  rw [run]
  exact hp

end Delivers

end ContractScript.Parser
