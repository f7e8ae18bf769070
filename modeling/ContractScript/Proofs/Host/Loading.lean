/-
Which settings cannot be loaded, and whose user is not told why.

Settings are merged from a file, the environment and overrides, and only what is left is converted.
A refusal is meant to be explained: the command line shows it and exits. That covers texts that spell
no number, names that are no settings and files that the reader complains about. It does not cover a
value that is fine in itself but of a kind or size its setting has no conversion for, such as an empty
value where a number is wanted; nor a reader that fails in another way. These two are the only ways
past the explanation, and each is described here exactly. The reader of files is any reader.
-/
import Mathlib
import ContractScript.Cli
import ContractScript.Settings.Document

set_option autoImplicit false

namespace ContractScript.Settings

/-! ## Conversion

Every failure of a conversion is listed with what it comes from. Those that concern a text are
explained, and so is the one about a number that is none. -/

/-- Whether a datum is of a kind that numbers are never made of. -/
def hasNoNumber : Datum → Bool
  | .null | .list _ | .map _ | .date _ | .moment _ => true
  | .bool _ | .int _ | .num _ | .text _ => false

theorem number_eq_error_iff {v : Datum} {e : LoadError} :
    number v = .error e ↔
      (hasNoNumber v = true ∧ e = .noNumber (kindWord v)) ∨
      (∃ n, v = .int n ∧ Number.isInfinite (Number.ofInt n) = true ∧ e = .integerTooLarge) ∨
      ∃ t, v = .text t ∧ Text.number? t = none ∧ e = .notNumber t := by
  cases v with
  | int n => by_cases large : Number.isInfinite (Number.ofInt n) = true <;>
      simp [number, hasNoNumber, large, @eq_comm LoadError]
  | text t => cases spelled : Text.number? t <;> simp [number, hasNoNumber, spelled, @eq_comm LoadError]
  | _ => simp [number, hasNoNumber, @eq_comm LoadError]

theorem integer_eq_error_iff {v : Datum} {e : LoadError} :
    integer v = .error e ↔
      (hasNoNumber v = true ∧ e = .noInteger (kindWord v)) ∨
      (∃ x, v = .num x ∧ Number.isNaN x = true ∧ e = .nanInteger) ∨
      (∃ x, v = .num x ∧ Number.isNaN x = false ∧ Number.isInfinite x = true ∧
        e = .infiniteInteger) ∨
      (∃ t, v = .text t ∧ Text.integer t = .error .notNumeral ∧ e = .notInteger t) ∨
      ∃ t digits, v = .text t ∧ Text.integer t = .error (.tooLong digits) ∧
        e = .tooManyDigits digits := by
  cases v with
  | num x => by_cases nan : Number.isNaN x = true <;>
      by_cases large : Number.isInfinite x = true <;>
      simp [integer, hasNoNumber, nan, large, @eq_comm LoadError]
  | text t =>
    cases spelled : Text.integer t with
    | ok n => simp [integer, hasNoNumber, spelled]
    | error why => cases why <;> simp [integer, hasNoNumber, spelled, @eq_comm LoadError]
  | _ => simp [integer, hasNoNumber, @eq_comm LoadError]

/-- A value that a setting has no conversion for because of its kind or size, and the failure that
comes of it. -/
inductive Misfit : String → Datum → LoadError → Prop
  | number {name : String} {v : Datum} (wanted : name = "http_timeout" ∨ name = "http_backoff")
      (unfit : hasNoNumber v = true) : Misfit name v (.noNumber (kindWord v))
  /-- The number nearest to the integer is infinite. -/
  | tooLarge {name : String} {n : Int} (wanted : name = "http_timeout" ∨ name = "http_backoff")
      (large : Number.isInfinite (Number.ofInt n) = true) : Misfit name (.int n) .integerTooLarge
  | integer {v : Datum} (unfit : hasNoNumber v = true) :
      Misfit "http_retries" v (.noInteger (kindWord v))
  | infinite {x : Float} (number : Number.isNaN x = false) (large : Number.isInfinite x = true) :
      Misfit "http_retries" (.num x) .infiniteInteger

theorem Misfit.isExplained {name : String} {v : Datum} {e : LoadError} (misfit : Misfit name v e) :
    e.isExplained = false := by
  cases misfit <;> rfl

/-- Only settings that are numbers have misfits. -/
theorem Misfit.name {name : String} {v : Datum} {e : LoadError} (misfit : Misfit name v e) :
    name = "http_timeout" ∨ name = "http_backoff" ∨ name = "http_retries" := by
  cases misfit with
  | number wanted | tooLarge wanted => exact wanted.imp_right .inl
  | integer | infinite => exact .inr (.inr rfl)

/-- Truth values and texts are converted, or it is said why not. -/
theorem not_misfit {name : String} {v : Datum} {e : LoadError}
    (plain : (∃ b, v = .bool b) ∨ ∃ t, v = .text t) : ¬Misfit name v e := by
  intro misfit
  obtain ⟨b, rfl⟩ | ⟨t, rfl⟩ := plain <;> cases misfit <;> simp_all [hasNoNumber]

theorem number_unexplained_iff {name : String} {v : Datum} {e : LoadError}
    (wanted : name = "http_timeout" ∨ name = "http_backoff") :
    (number v = .error e ∧ e.isExplained = false) ↔ Misfit name v e := by
  rw [number_eq_error_iff]
  constructor
  · rintro ⟨⟨unfit, rfl⟩ | ⟨n, rfl, large, rfl⟩ | ⟨t, -, -, rfl⟩, unexplained⟩
    · exact .number wanted unfit
    · exact .tooLarge wanted large
    · cases unexplained
  · intro misfit
    refine ⟨?_, misfit.isExplained⟩
    cases misfit with
    | number _ unfit => exact .inl ⟨unfit, rfl⟩
    | tooLarge _ large => exact .inr (.inl ⟨_, rfl, large, rfl⟩)
    | integer unfit => simp at wanted
    | infinite number large => simp at wanted

theorem integer_unexplained_iff {v : Datum} {e : LoadError} :
    (integer v = .error e ∧ e.isExplained = false) ↔ Misfit "http_retries" v e := by
  rw [integer_eq_error_iff]
  constructor
  · rintro ⟨⟨unfit, rfl⟩ | ⟨x, -, -, rfl⟩ | ⟨x, rfl, number, large, rfl⟩ | ⟨t, -, -, rfl⟩ |
      ⟨t, digits, -, -, rfl⟩, unexplained⟩
    · exact .integer unfit
    · cases unexplained
    · exact .infinite number large
    · cases unexplained
    · cases unexplained
  · intro misfit
    refine ⟨?_, misfit.isExplained⟩
    cases misfit with
    | integer unfit => exact .inl ⟨unfit, rfl⟩
    | infinite number large => exact .inr (.inr (.inl ⟨_, rfl, number, large, rfl⟩))
    | number wanted => simp at wanted
    | tooLarge wanted => simp at wanted

theorem map_eq_error_iff {α β : Type} {x : Except LoadError α} {f : α → β} {e : LoadError} :
    x.map f = .error e ↔ x = .error e := by
  cases x <;> simp [Except.map]

/-- Whether a setting is there and takes a value. -/
def Takes (name : String) (v : Datum) : Prop :=
  ∃ s, ({} : Settings).set name v = .ok s

/-- What a setting makes of a value does not depend on the other settings. -/
theorem set_eq_error_iff {s : Settings} {name : String} {v : Datum} {e : LoadError} :
    s.set name v = .error e ↔ ({} : Settings).set name v = .error e := by
  unfold Settings.set
  split <;> simp only [map_eq_error_iff, reduceCtorEq]

theorem takes_of_set {s s' : Settings} {name : String} {v : Datum} (taken : s.set name v = .ok s') :
    Takes name v := by
  cases fresh : ({} : Settings).set name v with
  | ok t => exact ⟨t, fresh⟩
  | error e =>
    rw [set_eq_error_iff.mpr fresh] at taken
    cases taken

theorem Takes.set {name : String} {v : Datum} (takes : Takes name v) (s : Settings) :
    ∃ s', s.set name v = .ok s' := by
  obtain ⟨t, fresh⟩ := takes
  cases taken : s.set name v with
  | ok s' => exact ⟨s', rfl⟩
  | error e =>
    rw [set_eq_error_iff.mp taken] at fresh
    cases fresh

/-- A setting that fails without an explanation is one of those that are numbers. -/
theorem set_unexplained_iff {s : Settings} {name : String} {v : Datum} {e : LoadError} :
    (s.set name v = .error e ∧ e.isExplained = false) ↔ Misfit name v e := by
  unfold Settings.set
  split
  case h_5 => rw [map_eq_error_iff, number_unexplained_iff (.inl rfl)]
  case h_6 => rw [map_eq_error_iff, integer_unexplained_iff]
  case h_7 => rw [map_eq_error_iff, number_unexplained_iff (.inr rfl)]
  case h_8 unknown =>
    constructor
    · rintro ⟨same, unexplained⟩
      cases same
      cases unexplained
    · intro misfit
      have known := misfit.name
      simp_all
  all_goals
    constructor
    · rintro ⟨taken, -⟩
      cases taken
    · intro misfit
      have known := misfit.name
      simp at known

/-! ## One entry after another -/

theorem foldlM_eq_error_iff {σ α ε : Type} {step : σ → α → Except ε σ} {xs : List α} {s : σ} {e : ε} :
    xs.foldlM step s = .error e ↔ ∃ before x after s', xs = before ++ x :: after ∧
      before.foldlM step s = .ok s' ∧ step s' x = .error e := by
  -- the first step fails, or it goes through and a later one does; the cut says which
  induction xs generalizing s with
  | nil => simp [pure, Except.pure]
  | cons x xs ih =>
    rw [List.foldlM_cons]
    cases first : step s x with
    | error e' =>
      constructor
      · intro failed
        exact ⟨[], x, xs, s, rfl, rfl, first.trans failed⟩
      · rintro ⟨before, y, after, s', split, through, failed⟩
        cases before with
        | nil =>
          cases split
          cases through
          exact first.symm.trans failed
        | cons z before =>
          cases split
          rw [List.foldlM_cons, first] at through
          cases through
    | ok s₁ =>
      show xs.foldlM step s₁ = .error e ↔ _
      rw [ih]
      constructor
      · rintro ⟨before, y, after, s', rfl, through, failed⟩
        refine ⟨x :: before, y, after, s', rfl, ?_, failed⟩
        rw [List.foldlM_cons, first]
        exact through
      · rintro ⟨before, y, after, s', split, through, failed⟩
        cases before with
        | nil =>
          cases split
          cases through
          rw [first] at failed
          cases failed
        | cons z before =>
          cases split
          rw [List.foldlM_cons, first] at through
          exact ⟨before, y, after, s', rfl, through, failed⟩

/-- Settings go through entries exactly if each of them is taken. -/
theorem foldlM_set_iff {entries : List (String × Datum)} {s : Settings} :
    (∃ s', entries.foldlM (fun s entry => s.set entry.1 entry.2) s = .ok s') ↔
      ∀ entry ∈ entries, Takes entry.1 entry.2 := by
  induction entries generalizing s with
  | nil => simp [pure, Except.pure]
  | cons entry entries ih =>
    rw [List.foldlM_cons, List.forall_mem_cons]
    constructor
    · rintro ⟨s', through⟩
      cases taken : s.set entry.1 entry.2 with
      | error e =>
        rw [taken] at through
        cases through
      | ok s₁ =>
        rw [taken] at through
        exact ⟨takes_of_set taken, ih.mp ⟨s', through⟩⟩
    · rintro ⟨takes, rest⟩
      obtain ⟨s₁, taken⟩ := takes.set s
      rw [taken]
      exact ih.mpr rest

/-- Merged values fail without an explanation exactly where the first that is not taken is a
misfit. -/
theorem ofValues_unexplained_iff {values : OrderedMap String Datum} {e : LoadError} :
    (ofValues values = .error e ∧ e.isExplained = false) ↔
      ∃ before name v after, values.entries = before ++ (name, v) :: after ∧
        (∀ entry ∈ before, Takes entry.1 entry.2) ∧ Misfit name v e := by
  unfold ofValues
  rw [foldlM_eq_error_iff]
  constructor
  · rintro ⟨⟨before, ⟨name, v⟩, after, s, split, through, failed⟩, unexplained⟩
    exact ⟨before, name, v, after, split, foldlM_set_iff.mp ⟨s, through⟩,
      set_unexplained_iff.mp ⟨failed, unexplained⟩⟩
  · rintro ⟨before, name, v, after, split, taken, misfit⟩
    obtain ⟨s, through⟩ := foldlM_set_iff.mpr taken
    exact ⟨⟨before, (name, v), after, s, split, through, (set_unexplained_iff.mpr misfit).1⟩,
      misfit.isExplained⟩

/-! ## Where a value comes from -/

section Entries

variable {κ ν : Type} [BEq κ] [LawfulBEq κ]

theorem mem_entries_insert {m : OrderedMap κ ν} {k k' : κ} {v v' : ν}
    (there : (k, v) ∈ (m.insert k' v').entries) : (k, v) = (k', v') ∨ (k, v) ∈ m.entries := by
  rw [← OrderedMap.get?_eq_some, OrderedMap.get?_insert] at there
  by_cases same : (k == k') = true
  · rw [if_pos same] at there
    cases there
    rw [eq_of_beq same]
    exact .inl rfl
  · rw [if_neg same] at there
    exact .inr (OrderedMap.get?_eq_some.mp there)

theorem mem_entries_foldl {pairs : List (κ × ν)} {m : OrderedMap κ ν} {entry : κ × ν}
    (there : entry ∈ (pairs.foldl (fun m p => m.insert p.1 p.2) m).entries) :
    entry ∈ m.entries ∨ entry ∈ pairs := by
  induction pairs generalizing m with
  | nil => exact .inl there
  | cons pair pairs ih =>
    rcases ih there with before | later
    · rcases mem_entries_insert before with same | before
      · exact .inr (List.mem_cons.mpr (.inl same))
      · exact .inl before
    · exact .inr (List.mem_cons_of_mem _ later)

theorem mem_entries_override {m later : OrderedMap κ ν} {entry : κ × ν}
    (there : entry ∈ (m.override later).entries) : entry ∈ m.entries ∨ entry ∈ later.entries :=
  mem_entries_foldl there

theorem mem_entries_ofList {pairs : List (κ × ν)} {entry : κ × ν}
    (there : entry ∈ (OrderedMap.ofList pairs).entries) : entry ∈ pairs := by
  rcases mem_entries_foldl there with none | there
  · exact absurd none List.not_mem_nil
  · exact there

end Entries

/-- The values of all sources, where a later source wins: the file, the environment, overrides, and
the directory. -/
def merged (file : OrderedMap String Datum) (environment : List (String × String))
    (sourceDir : Option String) (overrides : List (String × Datum)) : OrderedMap String Datum :=
  let values := (file.override (ofEnvironment environment)).override (ofOverrides overrides)
  match sourceDir with
  | some dir => values.insert "source_dir" (.text dir)
  | none => values

/-- The environment holds truth values and texts. -/
theorem plain_of_environment {environment : List (String × String)} {name : String} {v : Datum}
    (there : (name, v) ∈ (ofEnvironment environment).entries) :
    (∃ b, v = .bool b) ∨ ∃ t, v = .text t := by
  have written := mem_entries_ofList there
  simp only [List.mem_append, Option.mem_toList, Option.map_eq_some_iff, Prod.mk.injEq] at written
  obtain (⟨t, -, -, rfl⟩ | ⟨t, -, -, rfl⟩) | ⟨t, -, -, rfl⟩ := written
  · exact .inl ⟨_, rfl⟩
  · exact .inr ⟨t, rfl⟩
  · exact .inr ⟨t, rfl⟩

/-- Where a setting is written with a value: in the document, where hyphens may stand for
underscores, or in an override. -/
inductive Written (d : Datum) (overrides : List (String × Datum)) (v : Datum) : String → Prop
  | entry {entries : List (Datum × Datum)} {key : Datum} (map : d = .map entries)
      (there : (key, v) ∈ entries) : Written d overrides v (foldHyphens (nameOf key))
  | override {name : String} (there : (name, v) ∈ overrides) : Written d overrides v name

theorem written_of_file {d : Datum} {file : OrderedMap String Datum} {name : String} {v : Datum}
    (document : ofDocument d = .ok file) (there : (name, v) ∈ file.entries)
    (overrides : List (String × Datum)) : Written d overrides v name := by
  unfold ofDocument at document
  split at document
  · cases document
    exact absurd there List.not_mem_nil
  · rename_i entries
    cases document
    obtain ⟨⟨key, v'⟩, entry, same⟩ := List.mem_map.mp (mem_entries_ofList there)
    cases same
    exact .entry rfl entry
  · cases document

/-- A misfit is written in the document or in an override. -/
theorem Misfit.written {d : Datum} {file : OrderedMap String Datum}
    {environment : List (String × String)} {sourceDir : Option String}
    {overrides : List (String × Datum)} {name : String} {v : Datum} {e : LoadError}
    (misfit : Misfit name v e) (document : ofDocument d = .ok file)
    (there : (name, v) ∈ (merged file environment sourceDir overrides).entries) :
    Written d overrides v name := by
  have values : (name, v) ∈
      ((file.override (ofEnvironment environment)).override (ofOverrides overrides)).entries := by
    cases sourceDir with
    | none => exact there
    | some dir =>
      rcases mem_entries_insert there with directory | values
      · cases directory
        exact absurd misfit (not_misfit (.inr ⟨dir, rfl⟩))
      · exact values
  rcases mem_entries_override values with earlier | overriding
  · rcases mem_entries_override earlier with file | environment
    · exact written_of_file document file overrides
    · exact absurd misfit (not_misfit (plain_of_environment environment))
  · exact .override (List.mem_of_mem_filter (mem_entries_ofList overriding))

/-! ## Files -/

/-- What a reader makes of the settings file of a directory: data, or why it makes none. Where there
is no file there is nothing. -/
inductive Holds (read : Reader) (host : Host) (dir : String) : Except Unread Datum → Prop
  | absent (missing : host.files.isFile host.current (Path.within dir fileName) = false) :
      Holds read host dir (.ok .null)
  | content {bytes : ByteArray}
      (there : host.files.isFile host.current (Path.within dir fileName) = true)
      (content : host.files.readBytes host.current (Path.within dir fileName) = .ok bytes) :
      Holds read host dir (read bytes)

theorem exists_bytes {host : Host} {path : String}
    (there : host.files.isFile host.current path = true) :
    ∃ bytes, host.files.readBytes host.current path = .ok bytes := by
  unfold FileTree.isFile at there
  unfold FileTree.readBytes
  split at there
  · cases there
  · rename_i plain
    rw [if_neg plain]
    split at there
    · rename_i steps bytes located
      exact ⟨bytes, by rw [located]⟩
    · cases there

theorem exists_holds (read : Reader) (host : Host) (dir : String) : ∃ held, Holds read host dir held := by
  cases there : host.files.isFile host.current (Path.within dir fileName) with
  | false => exact ⟨_, .absent there⟩
  | true =>
    obtain ⟨bytes, content⟩ := exists_bytes there
    exact ⟨_, .content there content⟩

/-- The values of what a file holds. -/
def ofHeld : Except Unread Datum → Except LoadError (OrderedMap String Datum)
  | .ok d => ofDocument d
  | .error why => .error (.unread why)

theorem ofFile_of_holds {read : Reader} {host : Host} {dir : String} {held : Except Unread Datum}
    (holds : Holds read host dir held) : ofFile read host dir = ofHeld held := by
  unfold ofFile
  dsimp only
  cases holds with
  | absent missing =>
    rw [missing]
    rfl
  | @content bytes there content =>
    rw [there, content]
    cases made : read bytes <;> simp only [if_true, made] <;> rfl

/-! ## Loading -/

/-- The directory whose settings file counts. -/
def fileDirectory (host : Host) (sourceDir : Option String) : String :=
  match sourceDir with
  | some dir => if dir.isEmpty then host.current else dir
  | none => host.current

theorem load_eq (read : Reader) (host : Host) (environment : List (String × String)) (sourceDir : Option String)
    (overrides : List (String × Datum)) :
    load read host environment sourceDir overrides =
      ofFile read host (fileDirectory host sourceDir) >>= fun file =>
        ofValues (merged file environment sourceDir overrides) := by
  unfold load merged
  cases sourceDir <;> rfl

theorem ofDocument_error {d : Datum} {e : LoadError} (refused : ofDocument d = .error e) :
    e = .notMapping := by
  unfold ofDocument at refused
  split at refused <;> cases refused
  rfl

/-- Loading settings fails without an explanation in two ways only. Either there is a file, and its
reader fails in an unusual way. Or the file holds data (or there is none), and of the values that are
left after merging the first that is not taken is a misfit: one without a number, or too large, for a
setting that is a number. It was written so in the file or in an override, never in the environment.
Everything else is loaded or refused with an explanation. -/
theorem load_unexplained_iff (read : Reader) (host : Host) (environment : List (String × String))
    (sourceDir : Option String) (overrides : List (String × Datum)) (e : LoadError) :
    (load read host environment sourceDir overrides = .error e ∧ e.isExplained = false) ↔
      (∃ kind complaint,
        Holds read host (fileDirectory host sourceDir) (.error (.failed kind complaint)) ∧
        e = .unread (.failed kind complaint)) ∨
      ∃ d file before name v after, Holds read host (fileDirectory host sourceDir) (.ok d) ∧
        ofDocument d = .ok file ∧
        (merged file environment sourceDir overrides).entries = before ++ (name, v) :: after ∧
        (∀ entry ∈ before, Takes entry.1 entry.2) ∧ Misfit name v e ∧ Written d overrides v name := by
  rw [load_eq]
  obtain ⟨held, there⟩ := exists_holds read host (fileDirectory host sourceDir)
  constructor
  · rintro ⟨failed, unexplained⟩
    rw [ofFile_of_holds there] at failed
    cases held with
    | error why =>
      cases failed
      cases why with
      | failed kind complaint => exact .inl ⟨kind, complaint, there, rfl⟩
      | malformed | unfit => cases unexplained
    | ok d =>
      cases document : ofDocument d with
      | error e' =>
        rw [ofHeld, document, ofDocument_error document] at failed
        cases failed
        cases unexplained
      | ok values =>
        rw [ofHeld, document] at failed
        obtain ⟨before, name, v, after, split, taken, misfit⟩ :=
          ofValues_unexplained_iff.mp ⟨failed, unexplained⟩
        -- a value that is no number cannot come from the environment, where everything is a text
        have counts : (name, v) ∈ (merged values environment sourceDir overrides).entries := by
          rw [split]
          simp
        exact .inr ⟨d, values, before, name, v, after, there, document, split, taken, misfit,
          misfit.written document counts⟩
  · rintro (⟨kind, complaint, holds, rfl⟩ |
      ⟨d, values, before, name, v, after, holds, document, split, taken, misfit, -⟩)
    · rw [ofFile_of_holds holds]
      exact ⟨rfl, rfl⟩
    · rw [ofFile_of_holds holds, ofHeld, document]
      exact ofValues_unexplained_iff.mpr ⟨before, name, v, after, split, taken, misfit⟩

/-- Surroundings with a settings file that names a setting and says nothing of it. -/
def unsaid : Host :=
  ⟨FileTree.empty.insert ["w", fileName] (.file (Text.Utf8.encode "http-timeout:\n")),
    "/w", "/", [], ⟨[], 0⟩, ⟨[], 0⟩, ⟨[], [], [], .byClock⟩⟩

theorem read_unsaid : Document.read (Text.Utf8.encode "http-timeout:\n")
    = .ok (.map [(.text "http-timeout", .null)]) := by
  have decoded : Text.Utf8.decodeStream (Text.Utf8.encode "http-timeout:\n")
      = .ok "http-timeout:\n".toList := by decide +kernel
  have lines : Text.unifyNewlines "http-timeout:\n".toList = "http-timeout:\n".toList := by
    decide +kernel
  have symbols : Document.scan "http-timeout:\n".toList
      = .ok [.blockMap, .key, .scalar true "http-timeout", .value, .blockEnd] := by decide +kernel
  unfold Document.read
  rw [decoded]
  dsimp only
  rw [lines, Document.parse, symbols]
  rfl

theorem holds_unsaid :
    Holds Document.read unsaid "/w" (.ok (.map [(.text "http-timeout", .null)])) := by
  have held : Holds Document.read unsaid "/w"
      (Document.read (Text.Utf8.encode "http-timeout:\n")) :=
    .content (by decide +kernel) rfl
  rw [read_unsaid] at held
  exact held

/-- A setting that is named without a value gets past the explanation, and the command line is
surprised by it. -/
theorem load_unexplained_unsaid :
    load Document.read unsaid [] (some "/w") [] = .error (.noNumber "NoneType") ∧
      (LoadError.noNumber "NoneType").isExplained = false ∧
      ∀ render limits calls next, Cli.withSettings
        ⟨[], [], unsaid, ⟨Document.read, render, limits, calls⟩⟩ "/w" [] next
          = Cli.surprised unsaid (.settings (.noNumber "NoneType")) := by
  have misfit : Misfit "http_timeout" .null (.noNumber "NoneType") := .number (.inl rfl) rfl
  have folded : foldHyphens (nameOf (.text "http-timeout")) = "http_timeout" := by decide +kernel
  have document : ofDocument (.map [(.text "http-timeout", .null)])
      = .ok (.ofList [("http_timeout", .null)]) := by
    rw [← folded]
    rfl
  have entries : (merged (.ofList [("http_timeout", .null)]) [] (some "/w") []).entries
      = [] ++ ("http_timeout", .null) :: [("source_dir", .text "/w")] := by
    rfl
  have written : Written (.map [(.text "http-timeout", .null)]) [] .null "http_timeout" :=
    folded ▸ .entry rfl (List.mem_singleton.mpr rfl)
  obtain ⟨failed, unexplained⟩ := (load_unexplained_iff Document.read unsaid [] (some "/w") []
    (.noNumber "NoneType")).mpr (.inr ⟨_, _, [], "http_timeout", .null, _, holds_unsaid, document,
      entries, fun _ none => absurd none List.not_mem_nil, misfit, written⟩)
  refine ⟨failed, unexplained, fun render limits calls next => ?_⟩
  unfold Cli.withSettings
  rw [failed]
  rfl

end ContractScript.Settings
