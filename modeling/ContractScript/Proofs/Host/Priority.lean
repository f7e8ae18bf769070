/-
Which value a setting gets when several sources have one for it.

Values are merged before any of them is converted, so the question falls apart into two. Merging is
about names only: an override wins over a variable of the environment, that over the file, and in the
file the last of the keys that spell the name. Conversion is then about the winners only: settings are
loaded exactly if all names are known and each winner can be converted, whatever the values were that
lost.
-/
import ContractScript.Proofs.Host.Loading

set_option autoImplicit false

namespace ContractScript

/-! ## Maps by their last writes -/

namespace OrderedMap

section Lawful

variable {κ ν : Type} [BEq κ] [LawfulBEq κ]

theorem lookup_eq_lookup (k : κ) (entries : List (κ × ν)) :
    lookup k entries = entries.lookup k := by
  induction entries with
  | nil => rfl
  | cons entry entries ih =>
    rw [lookup, List.lookup_cons, ih, Bool.beq_comm]
    cases same : k == entry.1 <;> simp

/-- What is found at a key is the last entry with it. -/
theorem get?_eq_lookup (m : OrderedMap κ ν) (k : κ) : m.get? k = m.entries.reverse.lookup k := by
  unfold get? entries
  rw [List.reverse_reverse, lookup_eq_lookup]

theorem get?_foldl_insert (pairs : List (κ × ν)) (m : OrderedMap κ ν) (k : κ) :
    (pairs.foldl (fun m p => m.insert p.1 p.2) m).get? k
      = (pairs.reverse.lookup k).or (m.get? k) := by
  induction pairs generalizing m with
  | nil => rfl
  | cons pair pairs ih =>
    have first : (m.insert pair.1 pair.2).get? k = ([pair].lookup k).or (m.get? k) := by
      rw [get?_insert, List.lookup_cons]
      cases k == pair.1 <;> rfl
    rw [List.foldl_cons, ih, first, List.reverse_cons, List.lookup_append, Option.or_assoc]

theorem get?_ofList (pairs : List (κ × ν)) (k : κ) :
    (OrderedMap.ofList pairs).get? k = pairs.reverse.lookup k :=
  (get?_foldl_insert pairs .empty k).trans Option.or_none

theorem get?_override (m later : OrderedMap κ ν) (k : κ) :
    (m.override later).get? k = (later.get? k).or (m.get? k) := by
  rw [get?_eq_lookup later]
  exact get?_foldl_insert later.entries m k

end Lawful

end OrderedMap

namespace Settings

/-! ## Who wins -/

/-- The last value that is written for a name. -/
def lastOf (name : String) (written : List (String × Datum)) : Option Datum :=
  written.reverse.lookup name

/-- What a file has for a setting: the value of the last of its keys that spell the name, with hyphens
or without. -/
def filed (entries : List (Datum × Datum)) (name : String) : Option Datum :=
  lastOf name (entries.map fun entry => (foldHyphens (nameOf entry.1), entry.2))

/-- What the environment has for a setting. -/
def ofVariable (environment : List (String × String)) : String → Option Datum
  | "debug" => (environment.lookup "TAHINI_DEBUG").map fun t => .bool (flagOfText t)
  | "http_timeout" => (environment.lookup "TAHINI_HTTP_TIMEOUT").map .text
  | "http_retries" => (environment.lookup "TAHINI_HTTP_RETRIES").map .text
  | _ => none

/-- Whether something is said. -/
def isSaid : Datum → Bool
  | .null => false
  | _ => true

/-- What overrides have for a setting. One that says nothing does not count. -/
def overriding (overrides : List (String × Datum)) (name : String) : Option Datum :=
  lastOf name (overrides.filter fun override => isSaid override.2)

/-- The value that counts for a setting. The directory is given with the script or written in the
file; for any other setting it is the override, the variable or the entry of the file, in this order. -/
def winner (entries : List (Datum × Datum)) (environment : List (String × String))
    (sourceDir : Option String) (overrides : List (String × Datum)) : String → Option Datum
  | "source_dir" => (sourceDir.map Datum.text).or (filed entries "source_dir")
  | name => (overriding overrides name).or ((ofVariable environment name).or (filed entries name))

/-! ## Merging -/

theorem get?_ofEnvironment (environment : List (String × String)) (name : String) :
    (ofEnvironment environment).get? name = ofVariable environment name := by
  unfold ofEnvironment ofVariable
  rw [OrderedMap.get?_ofList]
  generalize environment.lookup "TAHINI_DEBUG" = debug
  generalize environment.lookup "TAHINI_HTTP_TIMEOUT" = timeout
  generalize environment.lookup "TAHINI_HTTP_RETRIES" = retries
  split
  case h_4 noDebug noTimeout noRetries =>
    have others := And.intro (beq_false_of_ne noDebug)
      (And.intro (beq_false_of_ne noTimeout) (beq_false_of_ne noRetries))
    cases debug <;> cases timeout <;> cases retries <;> simp [List.lookup, others]
  all_goals cases debug <;> cases timeout <;> cases retries <;> simp [List.lookup]

theorem get?_ofOverrides (overrides : List (String × Datum)) (name : String) :
    (ofOverrides overrides).get? name = overriding overrides name := by
  unfold ofOverrides
  rw [OrderedMap.get?_ofList]
  unfold overriding lastOf
  congr 3

/-- What counts for a setting is what merging leaves of it. -/
theorem get?_merged {entries : List (Datum × Datum)} {file : OrderedMap String Datum}
    {environment : List (String × String)} {sourceDir : Option String}
    {overrides : List (String × Datum)} (document : ofDocument (.map entries) = .ok file)
    (free : ∀ override ∈ overrides, override.1 ≠ "source_dir") (name : String) :
    (merged file environment sourceDir overrides).get? name
      = winner entries environment sourceDir overrides name := by
  have ofFile : file.get? name = filed entries name := by
    cases document
    rw [OrderedMap.get?_ofList]
    rfl
  have values : ((file.override (ofEnvironment environment)).override (ofOverrides overrides)).get?
      name = (overriding overrides name).or ((ofVariable environment name).or (filed entries name)) := by
    rw [OrderedMap.get?_override, OrderedMap.get?_override, get?_ofOverrides, get?_ofEnvironment,
      ofFile]
  -- the directory is the one name that is also set by itself, behind everything else
  by_cases directory : name = "source_dir"
  · subst directory
    have unsaid : overriding overrides "source_dir" = none := by
      refine List.lookup_eq_none_iff.mpr fun override there => ?_
      have named := free override (List.mem_of_mem_filter (List.mem_reverse.mp there))
      rw [bne, beq_false_of_ne named.symm]
      rfl
    rw [unsaid] at values
    cases sourceDir with
    | none => exact values
    | some dir => exact (OrderedMap.get?_insert ..).trans (if_pos rfl)
  · have other : winner entries environment sourceDir overrides name
        = (overriding overrides name).or ((ofVariable environment name).or (filed entries name)) := by
      unfold winner
      split
      · contradiction
      · rfl
    rw [other, ← values]
    cases sourceDir with
    | none => rfl
    | some dir => exact (OrderedMap.get?_insert ..).trans (if_neg (mt eq_of_beq directory))

/-! ## Converting -/

/-- What becomes of a setting: a value for it is converted, without one it stays as it was. -/
inductive Converted {α : Type} (convert : Datum → Except LoadError α) (before : α) :
    Option Datum → α → Prop
  | unset : Converted convert before none before
  | set {v : Datum} {after : α} (converted : convert v = .ok after) :
      Converted convert before (some v) after

/-- Settings that come of others by values for some of them. -/
structure Configured (value : String → Option Datum) (s s' : Settings) : Prop where
  testMode : Converted (fun v => .ok (flag v)) s.testMode (value "test_mode") s'.testMode
  repl : Converted (fun v => .ok (flag v)) s.repl (value "repl") s'.repl
  debug : Converted (fun v => .ok (flag v)) s.debug (value "debug") s'.debug
  sourceDir : Converted .ok s.sourceDir (value "source_dir") s'.sourceDir
  httpTimeout : Converted number s.httpTimeout (value "http_timeout") s'.httpTimeout
  httpRetries : Converted integer s.httpRetries (value "http_retries") s'.httpRetries
  httpBackoff : Converted (fun v => (number v).map .real) s.httpBackoff (value "http_backoff")
    s'.httpBackoff

theorem Converted.trans {α : Type} {convert : Datum → Except LoadError α} {x y z : α}
    {first second : Option Datum} (before : Converted convert x first y)
    (after : Converted convert y second z) : Converted convert x (second.or first) z := by
  cases after with
  | unset => exact before
  | set converted => exact .set converted

theorem Configured.refl (s : Settings) : Configured (fun _ => none) s s :=
  ⟨.unset, .unset, .unset, .unset, .unset, .unset, .unset⟩

theorem Configured.trans {first second : String → Option Datum} {s s₁ s₂ : Settings}
    (before : Configured first s s₁) (after : Configured second s₁ s₂) :
    Configured (fun name => (second name).or (first name)) s s₂ where
  testMode := before.testMode.trans after.testMode
  repl := before.repl.trans after.repl
  debug := before.debug.trans after.debug
  sourceDir := before.sourceDir.trans after.sourceDir
  httpTimeout := before.httpTimeout.trans after.httpTimeout
  httpRetries := before.httpRetries.trans after.httpRetries
  httpBackoff := before.httpBackoff.trans after.httpBackoff

theorem map_eq_ok_iff {α β : Type} {x : Except LoadError α} {f : α → β} {b : β} :
    x.map f = .ok b ↔ ∃ a, x = .ok a ∧ f a = b := by
  cases x <;> simp [Except.map]

/-- Setting one value leaves all other settings alone. -/
theorem configured_of_set {s s' : Settings} {name : String} {v : Datum}
    (taken : s.set name v = .ok s') : Configured (fun other => [(name, v)].lookup other) s s' := by
  unfold Settings.set at taken
  split at taken
  case h_8 => cases taken
  case h_5 | h_6 =>
    obtain ⟨x, converted, rfl⟩ := map_eq_ok_iff.mp taken
    constructor <;> simp only [List.lookup, String.reduceBEq] <;>
      first | exact .unset | exact .set converted
  case h_7 =>
    obtain ⟨x, converted, rfl⟩ := map_eq_ok_iff.mp taken
    have real : (number v).map Http.Backoff.real = .ok (.real x) := by
      rw [converted]
      rfl
    constructor <;> simp only [List.lookup, String.reduceBEq] <;>
      first | exact .unset | exact .set real
  all_goals
    cases taken
    constructor <;> simp only [List.lookup, String.reduceBEq] <;>
      first | exact .unset | exact .set rfl

theorem configured_of_foldlM {entries : List (String × Datum)} {s s' : Settings}
    (through : entries.foldlM (fun s entry => s.set entry.1 entry.2) s = .ok s') :
    Configured (fun name => entries.reverse.lookup name) s s' := by
  induction entries generalizing s with
  | nil =>
    cases through
    exact .refl _
  | cons entry entries ih =>
    rw [List.foldlM_cons] at through
    cases taken : s.set entry.1 entry.2 with
    | error e =>
      rw [taken] at through
      cases through
    | ok s₁ =>
      rw [taken] at through
      simp only [List.reverse_cons, List.lookup_append]
      exact (configured_of_set taken).trans (ih through)

/-! ## Loading -/

/-- The settings there are. -/
def names : List String :=
  ["test_mode", "repl", "debug", "source_dir", "http_timeout", "http_retries", "http_backoff"]

/-- Whether a value can be converted for a setting. Only numbers can fail to. -/
def Convertible (name : String) (v : Datum) : Prop :=
  match name with
  | "http_timeout" | "http_backoff" => ∃ x, number v = .ok x
  | "http_retries" => ∃ n, integer v = .ok n
  | _ => True

theorem takes_iff {name : String} {v : Datum} :
    Takes name v ↔ name ∈ names ∧ Convertible name v := by
  unfold Takes Settings.set
  split
  case h_8 n₁ n₂ n₃ n₄ n₅ n₆ n₇ =>
    have unknown : name ∉ names := by
      simp only [names, List.mem_cons, List.not_mem_nil, not_or]
      exact ⟨n₁, n₂, n₃, n₄, n₅, n₆, n₇, not_false⟩
    simp [unknown]
  all_goals simp [names, Convertible, map_eq_ok_iff]

/-- What the settings file of a directory lists. A file that is missing or says nothing lists
nothing. -/
inductive Lists (read : Reader) (host : Host) (dir : String) : List (Datum × Datum) → Prop
  | nothing (empty : Holds read host dir (.ok .null)) : Lists read host dir []
  | entries {entries : List (Datum × Datum)} (mapping : Holds read host dir (.ok (.map entries))) :
      Lists read host dir entries

theorem ofFile_of_lists {read : Reader} {host : Host} {dir : String} {entries : List (Datum × Datum)}
    (lists : Lists read host dir entries) :
    ∃ file, ofFile read host dir = .ok file ∧ ofDocument (.map entries) = .ok file := by
  cases lists with
  | nothing empty => exact ⟨.empty, ofFile_of_holds empty, rfl⟩
  | entries mapping => exact ⟨_, ofFile_of_holds mapping, rfl⟩

theorem lastOf_eq_none_iff {name : String} {written : List (String × Datum)} :
    lastOf name written = none ↔ name ∉ written.map Prod.fst := by
  unfold lastOf
  simp only [List.lookup_eq_none_iff, List.mem_reverse, bne_iff_ne, List.mem_map, not_exists, not_and]
  exact ⟨fun other pair there same => other pair there same.symm,
    fun other pair there same => other pair there same.symm⟩

/-- The file has something for the names that its keys spell. -/
theorem filed_isSome_iff {entries : List (Datum × Datum)} {name : String} :
    (∃ v, filed entries name = some v) ↔ ∃ entry ∈ entries, foldHyphens (nameOf entry.1) = name := by
  rw [← Option.ne_none_iff_exists', Ne, filed, lastOf_eq_none_iff, not_not, List.map_map, List.mem_map]
  rfl

theorem overriding_isSome_iff {overrides : List (String × Datum)} {name : String} :
    (∃ v, overriding overrides name = some v) ↔
      ∃ override ∈ overrides, isSaid override.2 = true ∧ override.1 = name := by
  rw [← Option.ne_none_iff_exists', Ne, overriding, lastOf_eq_none_iff, not_not, List.mem_map]
  simp only [List.mem_filter, and_assoc]

/-- Merged values can be taken exactly if what counts for each name can be. -/
theorem ofValues_ok_iff {values : OrderedMap String Datum} :
    (∃ s, ofValues values = .ok s) ↔ ∀ name v, values.get? name = some v → Takes name v := by
  unfold ofValues
  rw [foldlM_set_iff]
  simp only [OrderedMap.get?_eq_some, Prod.forall]

theorem configured_of_ofValues {values : OrderedMap String Datum} {s : Settings}
    (loaded : ofValues values = .ok s) : Configured values.get? {} s := by
  have configured := configured_of_foldlM loaded
  simp only [← OrderedMap.get?_eq_lookup] at configured
  exact configured

/-- A name that is no setting can come from an override or from the file only. -/
theorem winner_of_unknown {name : String} (unknown : name ∉ names)
    (entries : List (Datum × Datum)) (environment : List (String × String))
    (sourceDir : Option String) (overrides : List (String × Datum)) :
    winner entries environment sourceDir overrides name
      = (overriding overrides name).or (filed entries name) := by
  unfold winner
  split
  · exact absurd (by simp [names]) unknown
  · have unset : ofVariable environment name = none := by
      unfold ofVariable
      split <;> first | rfl | exact absurd (by simp [names]) unknown
    rw [unset, Option.none_or]

/-- All names that have a value are settings exactly if those in the file and in overrides are. -/
theorem winners_known_iff {entries : List (Datum × Datum)} {environment : List (String × String)}
    {sourceDir : Option String} {overrides : List (String × Datum)} :
    (∀ name v, winner entries environment sourceDir overrides name = some v → name ∈ names) ↔
      (∀ entry ∈ entries, foldHyphens (nameOf entry.1) ∈ names) ∧
      ∀ override ∈ overrides, isSaid override.2 = true → override.1 ∈ names := by
  constructor
  · intro known
    refine ⟨fun entry there => ?_, fun override there said => ?_⟩ <;> by_contra unknown
    -- a name that is no setting cannot be hidden, but its value may be an override's
    · obtain ⟨v, inFile⟩ := filed_isSome_iff.mpr ⟨entry, there, rfl⟩
      have wins := winner_of_unknown unknown entries environment sourceDir overrides
      rw [inFile] at wins
      cases said : overriding overrides (foldHyphens (nameOf entry.1)) with
      | none => exact unknown (known _ _ (wins.trans (by rw [said]; rfl)))
      | some v' => exact unknown (known _ _ (wins.trans (by rw [said]; rfl)))
    · obtain ⟨v, overridden⟩ := overriding_isSome_iff.mpr ⟨override, there, said, rfl⟩
      have wins := winner_of_unknown unknown entries environment sourceDir overrides
      rw [overridden] at wins
      exact unknown (known _ _ wins)
  · rintro ⟨inFile, overridden⟩ name v wins
    by_contra unknown
    rw [winner_of_unknown unknown] at wins
    rcases Option.or_eq_some_iff.mp wins with wins | ⟨-, wins⟩
    · obtain ⟨override, there, said, rfl⟩ := overriding_isSome_iff.mp ⟨v, wins⟩
      exact unknown (overridden override there said)
    · obtain ⟨entry, there, rfl⟩ := filed_isSome_iff.mp ⟨v, wins⟩
      exact unknown (inFile entry there)

/-- Settings are loaded exactly if the names in the file and in overrides that say something are
settings and what counts for each setting can be converted. Each setting is then the conversion of
what counts for it, or else its default. Values that do not count are not looked at, whatever they
are: a setting is an override, a variable of the environment or the last entry of the file that spells
its name, the first that there is, and the directory is the one given, or else the one in the file. -/
theorem load_by_priority (read : Reader) (host : Host) (environment : List (String × String))
    (sourceDir : Option String) (overrides : List (String × Datum))
    (entries : List (Datum × Datum)) (lists : Lists read host (fileDirectory host sourceDir) entries)
    (free : ∀ override ∈ overrides, override.1 ≠ "source_dir") :
    ((∃ s, load read host environment sourceDir overrides = .ok s) ↔
      (∀ entry ∈ entries, foldHyphens (nameOf entry.1) ∈ names) ∧
      (∀ override ∈ overrides, isSaid override.2 = true → override.1 ∈ names) ∧
      ∀ name v, winner entries environment sourceDir overrides name = some v → Convertible name v) ∧
    ∀ s, load read host environment sourceDir overrides = .ok s →
      Configured (winner entries environment sourceDir overrides) {} s := by
  obtain ⟨file, made, document⟩ := ofFile_of_lists lists
  have loads : load read host environment sourceDir overrides
      = ofValues (merged file environment sourceDir overrides) := by
    rw [load_eq, made]
    rfl
  -- merging comes before any value is converted, so all that counts is what it leaves of a name
  have wins : (merged file environment sourceDir overrides).get?
      = winner entries environment sourceDir overrides :=
    funext (get?_merged document free)
  rw [loads]
  refine ⟨?_, fun s loaded => ?_⟩
  · rw [ofValues_ok_iff, wins, ← and_assoc, ← winners_known_iff]
    simp only [takes_iff]
    exact ⟨fun taken => ⟨fun name v counts => (taken name v counts).1,
      fun name v counts => (taken name v counts).2⟩,
      fun both name v counts => ⟨both.1 name v counts, both.2 name v counts⟩⟩
  · rw [← wins]
    exact configured_of_ofValues loaded

/-- A file that names a setting without a value cannot be loaded by itself. With an override for that
setting it is, and the override is the setting. -/
theorem load_by_priority_overridden :
    ∃ s, load Document.read unsaid [] (some "/w") [("http_timeout", .num 1.0)] = .ok s ∧
      s.httpTimeout = 1.0 ∧ s.sourceDir = .text "/w" := by
  have free : ∀ override ∈ [("http_timeout", Datum.num 1.0)], override.1 ≠ "source_dir" := by simp
  obtain ⟨succeeds, configured⟩ := load_by_priority Document.read unsaid [] (some "/w")
    [("http_timeout", .num 1.0)] _ (.entries holds_unsaid) free
  have folded : foldHyphens (nameOf (.text "http-timeout")) = "http_timeout" := by decide +kernel
  have counts : winner [(.text "http-timeout", .null)] [] (some "/w") [("http_timeout", .num 1.0)]
      "http_timeout" = some (.num 1.0) := rfl
  have others : ∀ name ∈ ["http_retries", "http_backoff"],
      (filed [(.text "http-timeout", .null)] name).isNone = true := by decide +kernel
  -- the null in the file is not among the values that count
  have converts : ∀ name v, winner [(.text "http-timeout", .null)] [] (some "/w")
      [("http_timeout", .num 1.0)] name = some v → Convertible name v := by
    intro name v wins
    unfold Convertible
    split
    · rw [counts] at wins
      exact ⟨1.0, by rw [← Option.some.inj wins]; rfl⟩
    · have none' : filed [(.text "http-timeout", .null)] "http_backoff" = none :=
        Option.isNone_iff_eq_none.mp (others _ (by simp))
      cases none'.symm.trans wins
    · have none' : filed [(.text "http-timeout", .null)] "http_retries" = none :=
        Option.isNone_iff_eq_none.mp (others _ (by simp))
      cases none'.symm.trans wins
    · trivial
  obtain ⟨s, loaded⟩ := succeeds.mpr ⟨by simp [folded, names], by simp [names], converts⟩
  have fits := configured s loaded
  refine ⟨s, loaded, ?_, ?_⟩
  · have timeout := fits.httpTimeout
    rw [counts] at timeout
    cases timeout with
    | set converted => exact (Except.ok.inj converted).symm
  · have directory := fits.sourceDir
    cases directory with
    | set converted => exact (Except.ok.inj converted).symm

end Settings

end ContractScript
