/-
Making lists and maps changes nothing about those that are there.

The key of a value, and whether two values are equal, depend on the lists and maps that the
values lead to. If everything that is referred to is there, none of these is new when lists and
maps have been made.
-/
import ContractScript.Proofs.Run.Backdrop
import ContractScript.Proofs.Run.Grounding
import ContractScript.Proofs.Run.TestResults

set_option autoImplicit false

namespace ContractScript

namespace Store

variable {s s' : Store}

theorem Has.extend {v : Value} (h : s.Has v) (hs : s.Extends s') (functions : s'.functions = s.functions) :
    s'.Has v := by
  cases v with
  | list id => exact (hs.lists id h).1
  | map id => exact (hs.maps id h).1
  | function id =>
    show id < s'.functions.size
    rw [functions]
    exact h
  | nil | bool | num | text | native => trivial

theorem Whole.has_item (whole : s.Whole) {id : ListId} {v : Value} (member : v ∈ (s.items id).toList) :
    s.Has v :=
  whole.items id v (Array.mem_toList_iff.mp member)

theorem Whole.has_entry (whole : s.Whole) {id : MapId} {e : Key × Entry}
    (member : e ∈ (s.content id).entries) : s.Has e.2.key ∧ s.Has e.2.value :=
  whole.entries id e.2 (List.mem_map_of_mem member)

theorem Whole.has_valuePair (whole : s.Whole) {x y : MapId} {p : Value × Value}
    (member : p ∈ valuePairs (s.content x) (s.content y)) : s.Has p.1 ∧ s.Has p.2 := by
  obtain ⟨k, e, e', left, right, same, same'⟩ := mem_valuePairs.mp member
  rw [← same, ← same']
  exact ⟨(whole.has_entry left).2, (whole.has_entry right).2⟩

theorem mapM_congr {α β : Type} {f g : α → Option β} {xs : List α} (h : ∀ x ∈ xs, f x = g x) :
    xs.mapM f = xs.mapM g := by
  induction xs with
  | nil => rfl
  | cons x rest ih =>
    rw [List.forall_mem_cons] at h
    rw [List.mapM_cons, List.mapM_cons, h.1, ih h.2]

theorem allPairs?_congr {α : Type} {test test' : α → α → Option Bool} {pairs : List (α × α)}
    (h : ∀ p ∈ pairs, test p.1 p.2 = test' p.1 p.2) : allPairs? test pairs = allPairs? test' pairs := by
  induction pairs with
  | nil => rfl
  | cons p rest ih =>
    rw [List.forall_mem_cons] at h
    rw [allPairs?, allPairs?, h.1, ih h.2]

section Extends

variable (whole : s.Whole) (hs : s.Extends s')
include whole hs

/-- A value keeps its key. -/
theorem key?_of_extends {depth : Nat} : ∀ {v : Value}, s.Has v → s'.key? depth v = s.key? depth v := by
  induction depth with
  | zero => exact fun _ => rfl
  | succ depth ih =>
    intro v there
    cases v with
    | list id =>
      rw [key?, key?, (hs.lists id there).2]
      exact congrArg (Option.map Key.list) (mapM_congr fun v member => ih (whole.has_item member))
    | map id =>
      rw [key?, key?, (hs.maps id there).2]
      refine congrArg (Option.map Key.ofPairs) (mapM_congr fun e member => ?_)
      rw [ih (whole.has_entry member).2]
    | nil | bool | num | text | function | native => rfl

/-- Values stay equal, or unequal. -/
theorem equal?_of_extends {depth : Nat} : ∀ {a b : Value}, s.Has a → s.Has b →
    s'.equal? depth a b = s.equal? depth a b := by
  induction depth with
  | zero => exact fun _ _ => rfl
  | succ depth ih =>
    intro a b hasA hasB
    cases a with
    | list x =>
      cases b with
      | list y =>
        -- containers that were there have kept their contents, and these were there too
        have pairs : allPairs? (s'.equal? depth) ((s.items x).toList.zip (s.items y).toList)
            = allPairs? (s.equal? depth) ((s.items x).toList.zip (s.items y).toList) := by
          refine allPairs?_congr fun p member => ?_
          have members := List.of_mem_zip member
          exact ih (whole.has_item members.1) (whole.has_item members.2)
        rw [equal?, equal?, (hs.lists x hasA).2, (hs.lists y hasB).2]
        rw [pairs]
      | _ => rfl
    | map x =>
      cases b with
      | map y =>
        have pairs : allPairs? (s'.equal? depth) (valuePairs (s.content x) (s.content y))
            = allPairs? (s.equal? depth) (valuePairs (s.content x) (s.content y)) := by
          refine allPairs?_congr fun p member => ?_
          have there := whole.has_valuePair member
          exact ih there.1 there.2
        rw [equal?, equal?, (hs.maps x hasA).2, (hs.maps y hasB).2]
        rw [pairs]
      | _ => rfl
    | nil | bool | num | text | function | native => cases b <;> rfl

end Extends

end Store

namespace Session

variable {setup : Setup} {host : Host} {scripts : List (String × Option String)} {source : String}
  {name : Option String} {ended : List Config} {c : Config}

/-- In the evaluations of a session the scopes are nested and everything is there that is referred
to. -/
theorem whole_of_mem_ended (member : c ∈ ((Session.new setup host).after scripts).ended source name) :
    c.machine.Placed ∧ c.machine.store.Whole := by
  have like := (Session.likeItself_new setup host).after scripts
  have placed := Session.placed_after (Session.placed_new setup host) scripts
  obtain ⟨s, m, links, begins, trail⟩ := Session.mem_ended.mp member
  obtain ⟨ρ, begun⟩ := like.begins begins
  obtain ⟨first, -⟩ := begins.within placed
  obtain ⟨σ, -, here⟩ := trail.likeItself begun
  exact ⟨(trail.within first.placed).1.placed, here.1.store.whole rfl⟩

theorem Reaches.prefix_ended {session : Session} (reaches : session.Reaches source name ended c) :
    ended ++ c.chronicle session.setup <+: session.ended source name := by
  obtain ⟨program, read, reaches⟩ := reaches
  rw [ended_of_ofSource read]
  exact reaches.prefix_chronicle

theorem Reaches.whole (reaches : ((Session.new setup host).after scripts).Reaches source name ended c) :
    c.machine.Placed ∧ c.machine.store.Whole :=
  whole_of_mem_ended (reaches.prefix_ended.subset
    (List.mem_append_right _ (Config.mem_chronicle.mpr ⟨[], .here⟩)))

/-- So they are in all evaluations that have ended. -/
theorem Reaches.past_whole
    (reaches : ((Session.new setup host).after scripts).Reaches source name ended c) {c' : Config}
    (member : c' ∈ (Session.new setup host).chronicle scripts ++ ended) :
    c'.machine.Placed ∧ c'.machine.store.Whole := by
  rcases List.mem_append.mp member with earlier | here
  · obtain ⟨before, source, name, -, -, there⟩ := Session.mem_chronicle.mp earlier
    exact whole_of_mem_ended there
  · exact whole_of_mem_ended (reaches.prefix_ended.subset (List.mem_append_left _ here))

end Session

end ContractScript
