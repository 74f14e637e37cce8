import SessionGrid.CommandLine.Arguments
import SessionGrid.Config.File
import SessionGrid.Config.Json
import SessionGrid.Simulation.Report

/-!
# The commands

`check` reads a configuration and shows it, `init` writes one to start from unless there is one
already, `simulate` runs clients on the grid of a configuration. A command says what it prints and
with which code it ends: 0 if all went well, 1 if not, 2 if the arguments are wrong.
-/

namespace SessionGrid.CommandLine

structure Output where
  exit : UInt32
  stdout : String
  stderr : String

namespace Output

def success (text : String) : Output :=
  ⟨0, text, ""⟩

/-- An error message, with what is behind the error. -/
def failure (message : String) (cause : Option String) : Output :=
  ⟨1, "", "Error: " ++ message ++ "\n" ++
    match cause with
    | some cause => "\nCaused by:\n    " ++ cause ++ "\n"
    | none => ""⟩

end Output

/-! ## Texts -/

def capabilityLine (c : Capabilities) : String :=
  "      " ++ c.text ++ "\n"

def nodeLines (n : NodeConfig) : String :=
  "  - " ++ n.id.text ++ " (max " ++ toString n.maxSessions.toNat ++ " sessions)\n" ++
    String.join (n.capabilities.map capabilityLine)

/-- A configuration in lines: what the hub does, the nodes and what they offer. -/
def summary (c : Config) : String :=
  "✓ Config OK (" ++ (if c.strict then "strict" else "advisory") ++ " mode, " ++ c.policy.label ++
    " policy)\n  Nodes: " ++ toString c.nodes.length ++ "\n" ++ String.join (c.nodes.map nodeLines)

def programName : String := "gridhub"

def version : String := "0.1.0"

def versionText (c : Option CommandName) : String :=
  (match c with
    | some c => programName ++ "-" ++ c.word
    | none => programName) ++ " " ++ version ++ "\n"

def usageText : String :=
  "Usage: gridhub <check|init|simulate> [OPTIONS]\n"

def UsageError.message : UsageError → String
  | noCommand => "a command is required"
  | unknownCommand => "unrecognized command"
  | unknownArgument => "unexpected argument"
  | missingValue => "a value is required"
  | badValue => "invalid value"
  | repeatedOption => "an option was given twice"
  | unexpectedValue => "a value was given to a switch"

def refusal : Refusal → Output
  | .help => .success usageText
  | .version c => .success (versionText c)
  | .usage e => ⟨2, "", "error: " ++ e.message ++ "\n\n" ++ usageText⟩

/-! ## Commands -/

/-- The file that a configuration is written to. -/
def configName : String := "gridhub.toml"

/-- The path of a file in a directory. -/
def filePath (directory name : String) : String :=
  if directory = "" ∨ directory.endsWith "/" then directory ++ name else directory ++ "/" ++ name

/-- Shows a result, or what went wrong before it was there. -/
def present {α : Type} (format : String) (json : α → Json) (text : α → String) :
    Except Config.LoadError α → Output
  | .ok x => .success ((if format = "json" then (json x).pretty else text x) ++ "\n")
  | .error e => .failure e.message e.cause?

/-- Options of a simulation in milliseconds; the wait after a first miss is five of them. -/
def simulationOptions (clients requests : Nat) (capabilities : List (String × Json)) (holdMs : Nat)
    (maxAttempts : UInt32) : Simulation.Options :=
  { clients, requests, requested := .ofList capabilities, hold := holdMs, maxAttempts, backoff := 5 }

section

variable {m : Type → Type} [Monad m] (files : FileAccess m)

def initialise (directory : String) : m Output := do
  let path := filePath directory configName
  if ← files.holds path then return .failure (path ++ " already exists") none
  match Config.scaffold.tomlText? with
  | none => return .failure "failed to render config" none
  | some text =>
    match ← files.write path text.toUTF8 with
    | .ok () => return .success ("✓ Generated " ++ path ++ "\n")
    | .error e => return .failure e.message none

def Command.run : Command → m Output
  | .check config format => do
    return present format Config.toJson summary (Config.ofFile (← files.read config))
  | .init directory => initialise files directory
  | .simulate config clients requests capabilities holdMs maxAttempts format => do
    let options := simulationOptions clients requests capabilities holdMs maxAttempts
    let report := (Config.ofFile (← files.read config)).map fun c => (SessionGrid.simulate c options).1
    return present format Simulation.Report.toJson Simulation.Report.text report

/-- The program with the given arguments. -/
def run (args : List String) : m Output :=
  match parse args with
  | .ok command => command.run files
  | .error r => pure (refusal r)

end

end SessionGrid.CommandLine
