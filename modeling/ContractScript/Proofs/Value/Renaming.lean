/-
Values up to the names of what they refer to.

Two runs that do the same may keep their lists, maps, functions and scopes at different
places of their stores. A renaming says which reference of the one stands for which of the
other. Values are alike if they are the same but for references, and these stand for each
other. Keys have no references to lists and maps, only to functions, and they are sorted;
so for keys it matters that the order of functions is the same on both sides.
-/
import Mathlib.Data.List.Forall2
import ContractScript.Proofs.Program.Likeness
import ContractScript.Proofs.Value.KeyOrder
import ContractScript.Value

set_option autoImplicit false

namespace ContractScript

/-! ## Renamings -/

/-- Which references of one store stand for which of another. -/
structure Renaming where
  lists : ListId → ListId → Prop
  maps : MapId → MapId → Prop
  functions : FunctionId → FunctionId → Prop
  scopes : ScopeId → ScopeId → Prop

/-- One renaming has all that another one has. -/
structure Renaming.Le (ρ σ : Renaming) : Prop where
  lists : ∀ a b, ρ.lists a b → σ.lists a b
  maps : ∀ a b, ρ.maps a b → σ.maps a b
  functions : ∀ a b, ρ.functions a b → σ.functions a b
  scopes : ∀ a b, ρ.scopes a b → σ.scopes a b

instance : LE Renaming := ⟨Renaming.Le⟩

theorem Renaming.le_refl (ρ : Renaming) : ρ ≤ ρ :=
  ⟨fun _ _ h => h, fun _ _ h => h, fun _ _ h => h, fun _ _ h => h⟩

theorem Renaming.le_trans {ρ σ τ : Renaming} (h : ρ ≤ σ) (h' : σ ≤ τ) : ρ ≤ τ :=
  ⟨fun a b found => h'.lists a b (h.lists a b found), fun a b found => h'.maps a b (h.maps a b found),
    fun a b found => h'.functions a b (h.functions a b found),
    fun a b found => h'.scopes a b (h.scopes a b found)⟩

/-! ## Values -/

/-- Values that are the same but for what references are called. -/
inductive Value.Like (ρ : Renaming) : Value → Value → Prop
  | nil : Like ρ .nil .nil
  | bool (b : Bool) : Like ρ (.bool b) (.bool b)
  | num (x : Float) : Like ρ (.num x) (.num x)
  | text (t : String) : Like ρ (.text t) (.text t)
  | native (f : Native) : Like ρ (.native f) (.native f)
  | list {a b : ListId} (same : ρ.lists a b) : Like ρ (.list a) (.list b)
  | map {a b : MapId} (same : ρ.maps a b) : Like ρ (.map a) (.map b)
  | function {a b : FunctionId} (same : ρ.functions a b) : Like ρ (.function a) (.function b)

/-- Entries of maps with values that are alike. -/
structure Entry.Like (ρ : Renaming) (e e' : Entry) : Prop where
  key : e.key.Like ρ e'.key
  value : e.value.Like ρ e'.value

section Values

variable {ρ σ : Renaming}

theorem Value.Like.mono (h : ρ ≤ σ) {v v' : Value} (like : v.Like ρ v') : v.Like σ v' := by
  cases like with
  | nil => exact .nil
  | bool b => exact .bool b
  | num x => exact .num x
  | text t => exact .text t
  | native f => exact .native f
  | list same => exact .list (h.lists _ _ same)
  | map same => exact .map (h.maps _ _ same)
  | function same => exact .function (h.functions _ _ same)

theorem Entry.Like.mono (h : ρ ≤ σ) {e e' : Entry} (like : e.Like ρ e') : e.Like σ e' :=
  ⟨like.key.mono h, like.value.mono h⟩

theorem Value.Like.isTruthy {v v' : Value} (like : v.Like ρ v') : v.isTruthy = v'.isTruthy := by
  cases like <;> rfl

theorem Literal.like_value (ρ : Renaming) (l : Literal) : l.value.Like ρ l.value := by
  cases l with
  | nil => exact .nil
  | bool b => exact .bool b
  | num x => exact .num x
  | text t => exact .text t

end Values

/-! ## Keys -/

/-- Keys that are the same but for what functions are called. -/
inductive Key.Like (ρ : Renaming) : Key → Key → Prop
  | nil : Like ρ .nil .nil
  | bool (b : Bool) : Like ρ (.bool b) (.bool b)
  | num (bits : UInt64) : Like ρ (.num bits) (.num bits)
  | text (t : String) : Like ρ (.text t) (.text t)
  | native (f : Native) : Like ρ (.native f) (.native f)
  | list {ks ks' : List Key} (items : List.Forall₂ (Key.Like ρ) ks ks') : Like ρ (.list ks) (.list ks')
  | map {ps ps' : List (Key × Key)}
      (pairs : List.Forall₂ (PairLike (Key.Like ρ) (Key.Like ρ)) ps ps') : Like ρ (.map ps) (.map ps')
  | function {a b : FunctionId} (same : ρ.functions a b) : Like ρ (.function a) (.function b)

namespace Key

variable {ρ σ : Renaming}

mutual

theorem Like.mono (h : ρ ≤ σ) : {k k' : Key} → k.Like ρ k' → k.Like σ k'
  | _, _, .nil => .nil
  | _, _, .bool b => .bool b
  | _, _, .num bits => .num bits
  | _, _, .text t => .text t
  | _, _, .native f => .native f
  | .list _, _, .list items => .list (Like.monoItems h items)
  | .map _, _, .map pairs => .map (Like.monoPairs h pairs)
  | _, _, .function same => .function (h.functions _ _ same)

theorem Like.monoItems (h : ρ ≤ σ) : {ks ks' : List Key} → List.Forall₂ (Like ρ) ks ks' →
    List.Forall₂ (Like σ) ks ks'
  | [], _, .nil => .nil
  | _ :: _, _, .cons first rest => .cons (Like.mono h first) (Like.monoItems h rest)

theorem Like.monoPairs (h : ρ ≤ σ) : {ps ps' : List (Key × Key)} →
    List.Forall₂ (PairLike (Like ρ) (Like ρ)) ps ps' →
    List.Forall₂ (PairLike (Like σ) (Like σ)) ps ps'
  | [], _, .nil => .nil
  | (_, _) :: _, _, .cons (.mk key value) rest =>
    .cons (.mk (Like.mono h key) (Like.mono h value)) (Like.monoPairs h rest)

end

end Key

/-- The order of functions is the same on both sides. -/
def Renaming.Ordered (ρ : Renaming) : Prop :=
  ∀ a b c d, ρ.functions a b → ρ.functions c d → compare a c = compare b d

namespace Key

variable {ρ : Renaming}

theorem Like.rank {k k' : Key} (like : k.Like ρ k') : k.rank = k'.rank := by
  cases like <;> rfl

/-- Keys of different kinds are ordered by their kinds, which are the same on both sides. -/
theorem Like.order_of_rank {k k' l l' : Key} (like : k.Like ρ k') (other : l.Like ρ l')
    (apart : k.rank ≠ l.rank) : order k l = order k' l' := by
  have apart' : k'.rank ≠ l'.rank := by
    rw [← like.rank, ← other.rank]
    exact apart
  rw [order_of_rank_ne apart, order_of_rank_ne apart', like.rank, other.rank]

mutual

/-- Keys that are alike have the same order. -/
theorem Like.order (ordered : ρ.Ordered) : {k k' l l' : Key} → k.Like ρ k' → l.Like ρ l' →
    order k l = order k' l' := by
  intro k k' l l' like other
  by_cases kinds : k.rank = l.rank
  · match k, k', like with
    | .list _, _, .list items =>
      cases other <;> cases kinds
      rename_i others
      exact Like.orderItems ordered items others
    | .map _, _, .map pairs =>
      cases other <;> cases kinds
      rename_i others
      exact Like.orderPairs ordered pairs others
    | _, _, .function same =>
      cases other <;> cases kinds
      rename_i same'
      exact ordered _ _ _ _ same same'
    | _, _, .nil | _, _, .bool _ | _, _, .num _ | _, _, .text _ | _, _, .native _ =>
      cases other <;> rfl
  · exact like.order_of_rank other kinds

theorem Like.orderItems (ordered : ρ.Ordered) : {ks ks' ls ls' : List Key} →
    List.Forall₂ (Like ρ) ks ks' → List.Forall₂ (Like ρ) ls ls' →
    orderItems ks ls = orderItems ks' ls'
  | [], _, _, _, .nil, .nil => rfl
  | [], _, _, _, .nil, .cons _ _ => rfl
  | _ :: _, _, _, _, .cons _ _, .nil => rfl
  | _ :: _, _, _, _, .cons first rest, .cons first' rest' => by
    rw [Key.orderItems, Key.orderItems, Like.order ordered first first',
      Like.orderItems ordered rest rest']

theorem Like.orderPairs (ordered : ρ.Ordered) : {ps ps' qs qs' : List (Key × Key)} →
    List.Forall₂ (PairLike (Like ρ) (Like ρ)) ps ps' →
    List.Forall₂ (PairLike (Like ρ) (Like ρ)) qs qs' → orderPairs ps qs = orderPairs ps' qs'
  | [], _, _, _, .nil, .nil => rfl
  | [], _, _, _, .nil, .cons (.mk _ _) _ => rfl
  | (_, _) :: _, _, _, _, .cons (.mk _ _) _, .nil => rfl
  | (_, _) :: _, _, _, _, .cons (.mk key value) rest, .cons (.mk key' value') rest' => by
    rw [Key.orderPairs, Key.orderPairs, Like.order ordered key key', Like.order ordered value value',
      Like.orderPairs ordered rest rest']

end

theorem beq_iff_order {k l : Key} : (k == l) = true ↔ order k l = .eq := by
  rw [beq_iff_eq]
  constructor
  · rintro rfl
    exact order_self k
  · exact eq_of_order

/-- Keys that are alike are the same keys. -/
theorem Like.beq (ordered : ρ.Ordered) {k k' l l' : Key} (like : k.Like ρ k') (other : l.Like ρ l') :
    (k == l) = (k' == l') := by
  rw [Bool.eq_iff_iff, beq_iff_order, beq_iff_order, like.order ordered other]

end Key

/-- Sorting goes by what is the same on both sides. -/
theorem forall₂_mergeSort {α : Type} {R : α → α → Prop} {le : α → α → Bool}
    (same : ∀ a a' b b', R a a' → R b b' → le a b = le a' b') {xs ys : List α}
    (like : List.Forall₂ R xs ys) : List.Forall₂ R (xs.mergeSort le) (ys.mergeSort le) := by
  obtain ⟨length, related⟩ := List.forall₂_iff_zip.mp like
  -- both lists are sorted together, as one list of pairs
  have sorted : ((xs.zip ys).mergeSort fun p q => le p.1 q.1).map Prod.fst = xs.mergeSort le := by
    rw [List.map_mergeSort (s := le) fun _ _ _ _ => rfl, List.map_fst_zip (Nat.le_of_eq length)]
  have sorted' : ((xs.zip ys).mergeSort fun p q => le p.1 q.1).map Prod.snd = ys.mergeSort le := by
    rw [List.map_mergeSort fun p hp q hq => same p.1 p.2 q.1 q.2 (related hp) (related hq),
      List.map_snd_zip (Nat.le_of_eq length.symm)]
  rw [← sorted, ← sorted', List.forall₂_map_left_iff, List.forall₂_map_right_iff, List.forall₂_same]
  intro p hp
  exact related ((List.mergeSort_perm _ _).mem_iff.mp hp)

/-- Pairs that are alike make keys that are alike. -/
theorem Key.like_ofPairs {ρ : Renaming} (ordered : ρ.Ordered) {ps ps' : List (Key × Key)}
    (like : List.Forall₂ (PairLike (Key.Like ρ) (Key.Like ρ)) ps ps') :
    (Key.ofPairs ps).Like ρ (Key.ofPairs ps') := by
  refine .map (forall₂_mergeSort ?_ like)
  rintro _ _ _ _ ⟨first, -⟩ ⟨second, -⟩
  exact congrArg Ordering.isLE (first.order ordered second)

/-! ## Maps -/

namespace OrderedMap

variable {κ ν : Type} [BEq κ] {K : κ → κ → Prop} {V W : ν → ν → Prop}

/-- Maps with entries that are alike, in the same order. -/
def Like (K : κ → κ → Prop) (V : ν → ν → Prop) (m m' : OrderedMap κ ν) : Prop :=
  List.Forall₂ (PairLike K V) m.latest m'.latest

/-- Keys that are alike are the same keys. -/
def Agrees (K : κ → κ → Prop) : Prop :=
  ∀ k k' l l', K k k' → K l l' → (k == l) = (k' == l')

theorem agrees_eq : Agrees (Eq : κ → κ → Prop) := by
  rintro k _ l _ rfl rfl
  rfl

theorem Like.mono {K' : κ → κ → Prop} {m m' : OrderedMap κ ν} (like : m.Like K V m')
    (keys : ∀ k k', K k k' → K' k k') (values : ∀ v v', V v v' → W v v') : m.Like K' W m' := by
  refine List.Forall₂.imp ?_ like
  rintro _ _ ⟨key, value⟩
  exact .mk (keys _ _ key) (values _ _ value)

theorem like_empty : (empty : OrderedMap κ ν).Like K V empty :=
  List.Forall₂.nil

theorem Like.entries {m m' : OrderedMap κ ν} (like : m.Like K V m') :
    List.Forall₂ (PairLike K V) m.entries m'.entries :=
  List.rel_reverse like

theorem Like.values {m m' : OrderedMap κ ν} (like : m.Like K V m') :
    List.Forall₂ V m.values m'.values := by
  unfold OrderedMap.values
  rw [List.forall₂_map_left_iff, List.forall₂_map_right_iff]
  refine List.Forall₂.imp ?_ like.entries
  rintro _ _ ⟨-, value⟩
  exact value

theorem Like.keys {m m' : OrderedMap κ ν} (like : m.Like K V m') :
    List.Forall₂ K m.keys m'.keys := by
  unfold OrderedMap.keys
  rw [List.forall₂_map_left_iff, List.forall₂_map_right_iff]
  refine List.Forall₂.imp ?_ like.entries
  rintro _ _ ⟨key, -⟩
  exact key

theorem Like.size {m m' : OrderedMap κ ν} (like : m.Like K V m') : m.size = m'.size :=
  List.Forall₂.length_eq like

theorem like_lookup (agrees : Agrees K) {k k' : κ} (key : K k k') {es es' : List (κ × ν)}
    (like : List.Forall₂ (PairLike K V) es es') : Option.Rel V (lookup k es) (lookup k' es') := by
  induction like with
  | nil => exact .none
  | cons first _ ih =>
    obtain ⟨same, value⟩ := first
    rw [lookup, lookup, agrees _ _ _ _ same key]
    split
    · exact .some value
    · exact ih

theorem Like.get? (agrees : Agrees K) {m m' : OrderedMap κ ν} (like : m.Like K V m') {k k' : κ}
    (key : K k k') : Option.Rel V (m.get? k) (m'.get? k') :=
  like_lookup agrees key like

theorem Like.contains (agrees : Agrees K) {m m' : OrderedMap κ ν} (like : m.Like K V m') {k k' : κ}
    (key : K k k') : m.contains k = m'.contains k' := by
  unfold OrderedMap.contains
  have found := like.get? agrees key
  generalize m.get? k = r, m'.get? k' = r' at found
  cases found <;> rfl

theorem like_replace (agrees : Agrees K) {k k' : κ} (key : K k k') {v v' : ν} (value : V v v')
    {es es' : List (κ × ν)} (like : List.Forall₂ (PairLike K V) es es') :
    List.Forall₂ (PairLike K V) (replace k v es) (replace k' v' es') := by
  induction like with
  | nil => exact .nil
  | cons first rest ih =>
    obtain ⟨same, old⟩ := first
    rw [replace, replace, agrees _ _ _ _ same key]
    split
    · exact .cons (.mk same value) rest
    · exact .cons (.mk same old) ih

theorem Like.insert (agrees : Agrees K) {m m' : OrderedMap κ ν} (like : m.Like K V m') {k k' : κ}
    (key : K k k') {v v' : ν} (value : V v v') : (m.insert k v).Like K V (m'.insert k' v') := by
  unfold Like
  rw [latest_insert, latest_insert, like.contains agrees key]
  split
  · exact like_replace agrees key value like
  · exact .cons (.mk key value) like

theorem like_ofList (agrees : Agrees K) {ps ps' : List (κ × ν)}
    (like : List.Forall₂ (PairLike K V) ps ps') : (ofList ps).Like K V (ofList ps') := by
  have go : ∀ {m m' : OrderedMap κ ν}, m.Like K V m' →
      (ps.foldl (fun m p => m.insert p.1 p.2) m).Like K V
        (ps'.foldl (fun m p => m.insert p.1 p.2) m') := by
    induction like with
    | nil => exact fun h => h
    | cons first _ ih =>
      obtain ⟨key, value⟩ := first
      exact fun h => ih (h.insert agrees key value)
  exact go like_empty

end OrderedMap

end ContractScript
