import SessionGrid.CommandLine.Program
import SessionGrid.Proofs.Config.RoundTrip
import SessionGrid.Proofs.Files.Walk

/-!
# Runs of the program on a tree of files

A run changes files only by writing the configuration to start from where nothing was (`execute_cases`).
So whatever the runs, every file and directory stays as it was, and what is new are such configurations,
each written by a run that ended with 0 (`runs_keep_files`).
-/

namespace SessionGrid.CommandLine

/-- What the program prints, the code it ends with, and the files behind it. -/
def execute (args : List String) (d : Directory) : Output × Directory :=
  (run Directory.access args).run d

/-- The files after some runs, one after the other. -/
def after (d : Directory) (runs : List (List String)) : Directory :=
  runs.foldl (fun d args => (execute args d).2) d

/-- The path of the directory that a configuration is written to. -/
def targetDirectory (directory : String) : String :=
  if directory = "" then "." else directory

variable {d e : Directory} {args : List String} {directory path format key : String}

/-! ## The path of the configuration -/

theorem isName_configName : Directory.IsName configName := by
  constructor <;> decide

/-- The path of a configuration is that of its directory with a name behind it. -/
theorem place_filePath {q : List String} (led : d.place (filePath directory configName) = .ok q) :
    ∃ p, q = p ++ [configName] ∧ d.place (targetDirectory directory) = .ok p ∧
      d.entry? p = some .directory := by
  unfold filePath at led
  unfold targetDirectory
  by_cases none : directory = ""
  · subst none
    rw [if_pos (.inl rfl), String.empty_append,
      Directory.place_eq (by decide) (Directory.not_tooLong led)] at led
    have led : d.walk [] ([] ++ [configName]) = .ok q := led
    obtain ⟨p, same, held, here, -⟩ :=
      Directory.walk_last isName_configName (Directory.open_nil d) led
    cases here
    exact ⟨[], same, rfl, held [] List.prefix_rfl⟩
  · rw [if_neg none]
    split at led
    · next slash =>
      have ends : directory.endsWith "/" = true := slash.resolve_left none
      rw [String.endsWith_eq_endsWith_toSlice, String.Slice.endsWith_string_iff,
        String.copy_toSlice] at ends
      obtain ⟨cs, same⟩ := ends
      refine Directory.place_last isName_configName ?_ (.inr same.symm) ?_ led
      · rw [String.toList_append, ← same]
        simp
      · rw [String.utf8ByteSize_append]
        omega
    · have some : directory.toList ≠ [] := by simpa using none
      refine Directory.place_last isName_configName ?_ (.inl ⟨some, rfl⟩) ?_ led
      · simp [String.toList_append]
      · rw [String.utf8ByteSize_append, String.utf8ByteSize_append]
        omega

/-! ## The text of the configuration -/

/-- The text of a file is read from its bytes. -/
theorem ofBytes_toUTF8 (text : String) :
    Config.ofBytes text.toUTF8 = (Config.ofTomlText text).mapError .text := by
  have read : String.fromUTF8? text.toUTF8 = some text := dif_pos text.isValidUTF8
  rw [Config.ofBytes, read]

/-- The set with a browser alone is read back. -/
theorem portable_browser (browser : String) :
    Config.Portable (Capabilities.empty.insert "browserName" (.string browser)) := by
  have only : (Capabilities.empty.insert "browserName" (.string browser)).entries =
      [("browserName", .string browser)] := rfl
  constructor
  · exact ⟨List.pairwise_singleton _ _, trivial, trivial⟩
  · rw [only]
    rintro p (_ | ⟨_, ⟨⟩⟩)
    exact Nat.zero_le 70
  · rw [only]
    rintro p (_ | ⟨_, ⟨⟩⟩) x ⟨⟩

/-- The configuration to start from can be written and is read back. -/
theorem scaffold_readsBack :
    ∃ text, Config.scaffold.tomlText? = some text ∧
      Config.ofBytes text.toUTF8 = .ok Config.scaffold := by
  have valid : Config.scaffold.fault? = none := by decide +kernel
  have portable : ∀ n ∈ Config.scaffold.nodes, ∀ offer ∈ n.capabilities,
      Config.Portable offer := by
    simp only [Config.scaffold, List.forall_mem_cons]
    exact ⟨⟨portable_browser _, portable_browser _, nofun⟩, nofun⟩
  cases table : Config.scaffold.toToml? with
  | none =>
    have sayable : Config.scaffold.toToml?.isSome := by decide +kernel
    rw [table] at sayable
    cases sayable
  | some fields =>
    obtain ⟨writable, back⟩ := Config.toToml?_readsBack portable table
    have read := Toml.read_write (writable.mono (by decide : 75 ≤ Toml.maxDepth + 1))
    refine ⟨Toml.write fields, by rw [Config.tomlText?, table]; rfl, ?_⟩
    rw [ofBytes_toUTF8, Config.ofTomlText, read, Option.bind_some, back]
    simp only [valid]
    rfl

/-! ## Single runs -/

/-- Nothing is where the configuration goes, in a directory that is there. -/
structure Free (directory : String) (d : Directory) (place : List String) : Prop where
  leads : d.place (filePath directory configName) = .ok (place ++ [configName])
  target : d.place (targetDirectory directory) = .ok place ∧ d.entry? place = some .directory
  free : Bindings.find? (Directory.join (place ++ [configName])) d = none

/-- Where nothing is, no file is held. -/
theorem Free.holds {place : List String} (free : Free directory d place) :
    d.holds (filePath directory configName) = false := by
  rw [Directory.holds, free.leads]
  dsimp only
  rw [isName_configName.entry?, free.free]
  rfl

/-- The directory of a new file is there. -/
theorem Free.isDirectory {place : List String} (free : Free directory d place) :
    d.IsDirectory (targetDirectory directory) :=
  ⟨place, free.target⟩

/-- The files with the configuration to start from written to a place. -/
def created (d : Directory) (place : List String) (text : String) : Directory :=
  Bindings.insert (Directory.join (place ++ [configName])) (.file text.toUTF8) d

/-- An initialisation, without the access to files that it is written with. -/
theorem initialise_eq (directory : String) (d : Directory) :
    (initialise Directory.access directory).run d =
      if d.holds (filePath directory configName) then
        (.failure (filePath directory configName ++ " already exists") none, d)
      else match Config.scaffold.tomlText? with
        | none => (.failure "failed to render config" none, d)
        | some text =>
          match d.write (filePath directory configName) text.toUTF8 with
          | .ok e => (.success ("✓ Generated " ++ filePath directory configName ++ "\n"), e)
          | .error e => (.failure e.message none, d) := by
  unfold initialise
  cases holds : d.holds (filePath directory configName) with
  | true =>
    simp [Directory.access, holds]
    rfl
  | false =>
    cases Config.scaffold.tomlText? with
    | none =>
      simp [Directory.access, holds]
      rfl
    | some text =>
      cases written : d.write (filePath directory configName) text.toUTF8 with
      | ok e =>
        simp [Directory.access, holds, written, -String.toUTF8_eq_toByteArray]
        rfl
      | error e =>
        simp [Directory.access, holds, written, -String.toUTF8_eq_toByteArray]
        rfl

/-- An initialisation ends with 1 and changes nothing, or it ends with 0 and writes the configuration to
start from where nothing was. -/
theorem initialise_cases (directory : String) (d : Directory) :
    (∃ o, (initialise Directory.access directory).run d = (o, d) ∧ o.exit = 1) ∨
      ∃ o place text, Free directory d place ∧ Config.scaffold.tomlText? = some text ∧
        (initialise Directory.access directory).run d = (o, created d place text) ∧ o.exit = 0 := by
  rw [initialise_eq]
  split_ifs with held
  · exact .inl ⟨_, rfl, rfl⟩
  · obtain ⟨text, rendered, -⟩ := scaffold_readsBack
    rw [rendered]
    dsimp only
    cases led : d.place (filePath directory configName) with
    | error e =>
      have failed : d.write (filePath directory configName) text.toUTF8 = .error e := by
        rw [Directory.write, led]
        rfl
      rw [failed]
      exact .inl ⟨_, rfl, rfl⟩
    | ok q =>
      obtain ⟨place, rfl, target⟩ := place_filePath led
      have free : Bindings.find? (Directory.join (place ++ [configName])) d = none := by
        rw [Directory.holds, led] at held
        dsimp only at held
        rwa [isName_configName.entry?, Bool.not_eq_true, Option.isSome_eq_false_iff,
          Option.isNone_iff_eq_none] at held
      have written : d.write (filePath directory configName) text.toUTF8 =
          .ok (created d place text) := by
        simp only [Directory.write, led, bind, Except.bind, isName_configName.entry?, free]
        rfl
      rw [written]
      exact .inr ⟨_, place, text, ⟨led, target, free⟩, rfl, rfl, rfl⟩

theorem execute_init (init : parse args = .ok (.init directory)) (d : Directory) :
    execute args d = (initialise Directory.access directory).run d := by
  rw [execute, run, init]
  rfl

/-- A run with `check` reads a configuration and writes nothing. -/
theorem execute_check (check : parse args = .ok (.check path format)) (d : Directory) :
    execute args d = (present format Config.toJson summary (Config.ofFile (d.read path)), d) := by
  rw [execute, run, check]
  rfl

/-- **Single runs.** A run changes nothing, or it is an initialisation that ends with 0 and writes the
configuration to start from where nothing was. -/
theorem execute_cases (args : List String) (d : Directory) :
    (execute args d).2 = d ∨
      ∃ directory place text, parse args = .ok (.init directory) ∧ (execute args d).1.exit = 0 ∧
        Free directory d place ∧ Config.scaffold.tomlText? = some text ∧
        (execute args d).2 = created d place text := by
  cases parsed : parse args with
  | error refused =>
    left
    rw [execute, run, parsed]
    rfl
  | ok command =>
    cases command with
    | check path format =>
      left
      rw [execute_check parsed]
    | simulate =>
      left
      rw [execute, run, parsed]
      rfl
    | init directory =>
      rw [execute_init parsed]
      rcases initialise_cases directory d with
        ⟨o, same, -⟩ | ⟨o, place, text, free, rendered, same, exit⟩
      · left
        rw [same]
      · right
        rw [same]
        exact ⟨directory, place, text, rfl, exit, free, rendered, rfl⟩

/-! ## Runs one after the other -/

theorem after_append (d : Directory) (runs more : List (List String)) :
    after d (runs ++ more) = after (after d runs) more :=
  List.foldl_append

/-- A new file leaves all that was there. -/
theorem Free.kept {place : List String} (free : Free directory d place) (text : String) :
    d.Kept (created d place text) :=
  Directory.kept_insert free.free _

/-- **One run** keeps everything. -/
theorem kept_execute (args : List String) (d : Directory) : d.Kept (execute args d).2 := by
  rcases execute_cases args d with same | ⟨_, _, text, -, -, free, -, same⟩
  · rw [same]
    exact .refl d
  · rw [same]
    exact free.kept text

/-- Whatever is run, everything stays there as it was. -/
theorem kept_after (d : Directory) (runs : List (List String)) : d.Kept (after d runs) := by
  induction runs generalizing d with
  | nil => exact .refl d
  | cons args runs ih => exact (kept_execute args d).trans (ih _)

/-- The run is an initialisation that ends with 0, and the entry is the configuration to start from under
the name that it is written to. -/
def Creates (args : List String) (d : Directory) (key : String) (entry : Entry) : Prop :=
  ∃ directory place text, parse args = .ok (.init directory) ∧ (execute args d).1.exit = 0 ∧
    d.place (filePath directory configName) = .ok (place ++ [configName]) ∧
    key = Directory.join (place ++ [configName]) ∧
    Config.scaffold.tomlText? = some text ∧ entry = .file text.toUTF8

/-- What is new was created by this run. -/
theorem creates_of_new {entry : Entry} (found : Bindings.find? key (execute args d).2 = some entry)
    (new : Bindings.find? key d = none) : Creates args d key entry := by
  rcases execute_cases args d with same | ⟨directory, place, text, init, exit, free, rendered, same⟩
  · rw [same, new] at found
    cases found
  · rw [same, created, Bindings.find?_insert] at found
    split at found
    · next own =>
      cases found
      exact ⟨directory, place, text, init, exit, free.leads, own.symm, rendered, rfl⟩
    · rw [new] at found
      cases found

/-- What is new after some runs came with one of them. -/
theorem after_new {runs : List (List String)} {entry : Entry}
    (found : Bindings.find? key (after d runs) = some entry) (new : Bindings.find? key d = none) :
    ∃ past args future, runs = past ++ args :: future ∧ Creates args (after d past) key entry := by
  -- The first run brings the entry, which then stays, or leaves its name free for the runs behind it.
  induction runs generalizing d with
  | nil =>
    rw [after, List.foldl_nil, new] at found
    cases found
  | cons args runs ih =>
    cases first : Bindings.find? key (execute args d).2 with
    | none =>
      obtain ⟨past, args', future, rfl, creates⟩ := ih found first
      exact ⟨args :: past, args', future, rfl, creates⟩
    | some entry' =>
      have same : entry' = entry := by
        have kept := kept_after _ runs key entry' first
        exact Option.some.inj (kept.symm.trans found)
      subst same
      exact ⟨[], args, runs, rfl, creates_of_new first new⟩

/-! ## Initialisations -/

/-- The run ends with 1 and changes nothing. -/
def Fails (args : List String) (d : Directory) : Prop :=
  (execute args d).1.exit = 1 ∧ (execute args d).2 = d

/-- Where the configuration is, or where its directory is not, an initialisation fails. -/
theorem fails_of_held (init : parse args = .ok (.init directory))
    (held : d.holds (filePath directory configName) = true ∨
      ¬ d.IsDirectory (targetDirectory directory)) : Fails args d := by
  rw [Fails, execute_init init]
  rcases initialise_cases directory d with ⟨o, same, exit⟩ | ⟨_, _, _, free, -⟩
  · rw [same]
    exact ⟨exit, rfl⟩
  · rcases held with held | missing
    · rw [free.holds] at held
      cases held
    · exact absurd free.isDirectory missing

/-- The configuration to start from is where an initialisation writes it. -/
def Written (directory : String) (d : Directory) : Prop :=
  ∃ (place : List String) (text : String),
    d.place (filePath directory configName) = .ok (place ++ [configName]) ∧
    Bindings.find? (Directory.join (place ++ [configName])) d = some (.file text.toUTF8) ∧
    Config.ofBytes text.toUTF8 = .ok Config.scaffold

/-- What was written stays written. -/
theorem Written.kept (written : Written directory d) (kept : d.Kept e) : Written directory e := by
  obtain ⟨place, text, leads, found, back⟩ := written
  exact ⟨place, text, kept.place leads, kept _ _ found, back⟩

theorem written_of_exit (init : parse args = .ok (.init directory))
    (exit : (execute args d).1.exit = 0) : Written directory (execute args d).2 := by
  rw [execute_init init] at exit ⊢
  rcases initialise_cases directory d with
    ⟨o, same, failed⟩ | ⟨o, place, text, free, rendered, same, -⟩
  · rw [same, failed] at exit
    cases exit
  · rw [same]
    obtain ⟨text', rendered', back⟩ := scaffold_readsBack
    cases rendered.symm.trans rendered'
    refine ⟨place, text, (free.kept text).place free.leads, ?_, back⟩
    rw [created, Bindings.find?_insert, if_pos rfl]

/-- The configuration is there under each path that leads to it. -/
theorem Written.entry? (written : Written directory d)
    (there : d.place path = d.place (filePath directory configName)) :
    ∃ (place : List String) (text : String), d.place path = .ok place ∧
      d.entry? place = some (.file text.toUTF8) ∧
      Config.ofBytes text.toUTF8 = .ok Config.scaffold := by
  obtain ⟨place, text, leads, found, back⟩ := written
  refine ⟨place ++ [configName], text, there.trans leads, ?_, back⟩
  rw [isName_configName.entry?, found]

theorem Written.holds (written : Written directory d)
    (there : d.place path = d.place (filePath directory configName)) : d.holds path = true := by
  obtain ⟨place, text, leads, found, -⟩ := written.entry? there
  rw [Directory.holds, leads]
  dsimp only
  rw [found]
  rfl

/-- **Checked.** A configuration that was written has no fault. -/
theorem Written.check (written : Written directory d)
    (there : d.place path = d.place (filePath directory configName))
    (check : parse args = .ok (.check path format)) : (execute args d).1.exit = 0 := by
  obtain ⟨place, text, leads, found, back⟩ := written.entry? there
  have read : d.read path = .ok text.toUTF8 := by
    simp only [Directory.read, leads, bind, Except.bind, found]
  rw [execute_check check, read, Config.ofFile, back]
  rfl

/-- **Files stay.** Whatever runs follow each other, every file and directory stays as it was. What is
new are configurations to start from, each under its name and written by an initialisation that ended
with 0. Where the configuration is already, or where its directory is missing, an initialisation ends
with 1 and changes nothing. Where one has ended with 0, a check of its file ends with 0 from then on,
under each path that leads there, and another initialisation ends with 1. -/
theorem runs_keep_files (d : Directory) (runs : List (List String)) :
    (∀ key entry, Bindings.find? key d = some entry →
        Bindings.find? key (after d runs) = some entry) ∧
      (∀ key entry, Bindings.find? key (after d runs) = some entry → Bindings.find? key d = none →
        ∃ past args future, runs = past ++ args :: future ∧
          Creates args (after d past) key entry) ∧
      ∀ args directory, parse args = .ok (.init directory) →
        ((after d runs).holds (filePath directory configName) = true ∨
          ¬ (after d runs).IsDirectory (targetDirectory directory) → Fails args (after d runs)) ∧
        ((execute args (after d runs)).1.exit = 0 → ∀ more path,
          let e := after d (runs ++ args :: more)
          e.place path = e.place (filePath directory configName) →
            (∀ args' format, parse args' = .ok (.check path format) →
              (execute args' e).1.exit = 0) ∧
            ∀ args' directory', parse args' = .ok (.init directory') →
              filePath directory' configName = path → Fails args' e) := by
  refine ⟨kept_after d runs, fun key entry => after_new, ?_⟩
  intro args directory init
  refine ⟨fails_of_held init, ?_⟩
  intro exit more path e there
  have written : Written directory e := by
    have split : e = after (execute args (after d runs)).2 more := after_append d runs (args :: more)
    rw [split]
    exact (written_of_exit init exit).kept (kept_after _ more)
  constructor
  · intro args' format check
    exact written.check there check
  · intro args' directory' init' same
    apply fails_of_held init'
    left
    rw [same]
    exact written.holds there

/-- A note and an empty directory. -/
def twoEntries : Directory :=
  [("notes.txt", .file "hi".toUTF8), ("sub", .directory)]

/-- A configuration written to a directory, checked under another path and asked for once more, and one
for a directory that is missing. -/
theorem runs_keep_files_one_init :
    let args := ["init", "--path", "sub"]
    let e := after twoEntries [args]
    (execute args twoEntries).1.exit = 0 ∧
      Bindings.find? "notes.txt" e = some (.file "hi".toUTF8) ∧
      (execute ["check", "-c", "./sub//gridhub.toml"] e).1.exit = 0 ∧
      Fails ["init", "-p", "sub/"] e ∧ Fails ["init", "-p", "other"] twoEntries := by
  intro args e
  have exit : (execute args twoEntries).1.exit = 0 := by decide +kernel
  obtain ⟨kept, -, init⟩ := runs_keep_files twoEntries []
  obtain ⟨-, held⟩ := init args "sub" rfl
  have same : e.place "./sub//gridhub.toml" = e.place (filePath "sub" configName) := by
    decide +kernel
  obtain ⟨check, -⟩ := held exit [] "./sub//gridhub.toml" same
  obtain ⟨-, again⟩ := held exit [] (filePath "sub" configName) rfl
  obtain ⟨missing, -⟩ := init ["init", "-p", "other"] "other" rfl
  have noDirectory : ¬ twoEntries.IsDirectory (targetDirectory "other") := by
    rintro ⟨place, led, there⟩
    have other : twoEntries.place (targetDirectory "other") = .ok ["other"] := by decide +kernel
    rw [other] at led
    cases led
    have none : twoEntries.entry? ["other"] = none := by rfl
    rw [none] at there
    cases there
  refine ⟨exit, ?_, check _ "text" rfl, again _ "sub/" rfl (by decide +kernel),
    missing (.inr noDirectory)⟩
  exact (runs_keep_files twoEntries [args]).1 "notes.txt" _ rfl
end SessionGrid.CommandLine
