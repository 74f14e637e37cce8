import SessionGrid.Capabilities.Pair

/-!
# Arguments of the command line

The first argument is a command, its options follow. An option takes one value: the next argument, or
what follows its long name and `=`, or what follows its letter with a `=` between or without. A value
given as an argument of its own does not start with `-`. It is judged only when the next option comes
or the arguments end, so that an argument that fits nowhere is complained about first. Behind `--` no
option is recognised.
-/

namespace SessionGrid.CommandLine

inductive CommandName where
  | check
  | init
  | simulate
deriving DecidableEq

inductive OptionName where
  | config
  | format
  | path
  | clients
  | requests
  | capability
  | holdMs
  | maxAttempts
deriving DecidableEq

namespace CommandName

def word : CommandName → String
  | check => "check"
  | init => "init"
  | simulate => "simulate"

def ofWord? (w : String) : Option CommandName :=
  [check, init, simulate].find? fun c => c.word == w

def options : CommandName → List OptionName
  | check => [.config, .format]
  | init => [.path]
  | simulate => [.config, .clients, .requests, .capability, .holdMs, .maxAttempts, .format]

end CommandName

/-- The values of all options. -/
structure Settings where
  config : String := "gridhub.toml"
  format : String := "text"
  path : String := "."
  clients : Nat := 4
  requests : Nat := 10
  capabilities : List (String × Json) := []
  holdMs : Nat := 20
  maxAttempts : UInt32 := 50

/-- The integer of a text of decimal digits with a sign or without. -/
def integer? (s : String) : Option Int :=
  match s.toList with
  | '-' :: c :: cs => (digits? (c :: cs)).map fun n => -(n : Int)
  | '+' :: cs => (digits? cs).map Int.ofNat
  | cs => (digits? cs).map Int.ofNat
where
  digits? (cs : List Char) : Option Nat :=
    if cs.isEmpty || !cs.all Char.isDigit then none else some (Text.decimalNumber cs)

/-- An integer of 64 bits that is written without `-`. -/
def word? (s : String) : Option Nat := do
  if s.startsWith "-" then none
  let n ← integer? s
  if n < 0x10000000000000000 then some n.toNat else none

namespace OptionName

def long : OptionName → String
  | config => "config"
  | format => "format"
  | path => "path"
  | clients => "clients"
  | requests => "requests"
  | capability => "capability"
  | holdMs => "hold-ms"
  | maxAttempts => "max-attempts"

def short? : OptionName → Option Char
  | config => some 'c'
  | format => some 'f'
  | path => some 'p'
  | _ => none

/-- May be given more than once. -/
def isRepeatable : OptionName → Bool
  | capability => true
  | _ => false

/-- The settings with the option's value, if it is one. -/
def set? (o : OptionName) (value : String) (s : Settings) : Option Settings :=
  match o with
  | config => some { s with config := value }
  | format => some { s with format := value }
  | path => some { s with path := value }
  | clients => (word? value).map fun n => { s with clients := n }
  | requests => (word? value).map fun n => { s with requests := n }
  | capability =>
    (Capabilities.parsePair value).map fun p => { s with capabilities := s.capabilities ++ [p] }
  | holdMs => (word? value).map fun n => { s with holdMs := n }
  | maxAttempts => do
    let n ← integer? value
    if 0 ≤ n ∧ n < 0x100000000 then some { s with maxAttempts := n.toNat.toUInt32 } else none

end OptionName

inductive Command where
  | check (config format : String)
  | init (path : String)
  | simulate (config : String) (clients requests : Nat) (capabilities : List (String × Json))
      (holdMs : Nat) (maxAttempts : UInt32) (format : String)

def CommandName.command (s : Settings) : CommandName → Command
  | check => .check s.config s.format
  | init => .init s.path
  | simulate =>
    .simulate s.config s.clients s.requests s.capabilities s.holdMs s.maxAttempts s.format

/-- What is wrong with arguments. -/
inductive UsageError where
  | noCommand
  | unknownCommand
  | unknownArgument
  | missingValue
  /-- A value that is none of its option. -/
  | badValue
  | repeatedOption
  /-- A value for a switch. -/
  | unexpectedValue
deriving DecidableEq

/-- Why no command is run. -/
inductive Refusal where
  | help
  /-- The version of the program, or of one of its commands. -/
  | version (command : Option CommandName)
  | usage (error : UsageError)

/-! ## Single arguments -/

/-- The form of an argument. -/
inductive Token where
  | separator
  | long (name : String) (value : Option String)
  | short (letter : Char) (rest : List Char)
  | plain

def token (arg : String) : Token :=
  match arg.toList with
  | ['-', '-'] => .separator
  | '-' :: '-' :: cs =>
    match Capabilities.splitPair cs with
    | some (name, value) => .long (String.ofList name) (some (String.ofList value))
    | none => .long (String.ofList cs) none
  | '-' :: c :: cs => .short c cs
  | _ => .plain

/-- What the name of an option means. -/
inductive Switch where
  | option (name : OptionName)
  | help
  | version

def longSwitch? (known : List OptionName) (name : String) : Option Switch :=
  if name = "help" then some .help
  else if name = "version" then some .version
  else (known.find? fun o => o.long == name).map .option

def shortSwitch? (known : List OptionName) (letter : Char) : Option Switch :=
  if letter = 'h' then some .help
  else if letter = 'V' then some .version
  else (known.find? fun o => o.short? == some letter).map .option

/-- The value that follows the letter of an option in the same argument. -/
def attached : List Char → Option String
  | [] => none
  | '=' :: cs => some (String.ofList cs)
  | cs => some (String.ofList cs)

/-! ## Options -/

/-- Options that have been read. -/
structure Scan where
  settings : Settings := {}
  given : List OptionName := []
  /-- The last option, with its value if it has come. -/
  pending : Option (OptionName × Option String) := none

namespace Scan

/-- Takes in an option with its value. -/
def accept (s : Scan) (o : OptionName) : Option String → Except Refusal Scan
  | none => .error (.usage .missingValue)
  | some value =>
    if !o.isRepeatable && s.given.contains o then .error (.usage .repeatedOption)
    else match o.set? value s.settings with
      | some settings => .ok ⟨settings, o :: s.given, none⟩
      | none => .error (.usage .badValue)

/-- Takes in the option that is pending. -/
def settle (s : Scan) : Except Refusal Scan :=
  match s.pending with
  | none => .ok s
  | some (o, value) => s.accept o value

/-- Takes in the name of an option, perhaps with its value. -/
def switch (s : Scan) (c : CommandName) (value : Option String) : Switch → Except Refusal Scan
  | .help => do let _ ← s.settle; .error .help
  | .version => do let _ ← s.settle; .error (.version (some c))
  | .option o => do
    let s ← s.settle
    match value with
    | some v => s.accept o (some v)
    | none => .ok { s with pending := some (o, none) }

end Scan

/-- Reads the options of a command. -/
def scan (c : CommandName) (s : Scan) : List String → Except Refusal Scan
  | [] => s.settle
  | arg :: args =>
    match token arg with
    | .separator => if args.isEmpty then s.settle else .error (.usage .unknownArgument)
    | .long name value =>
      match longSwitch? c.options name, value with
      | none, _ => .error (.usage .unknownArgument)
      | some .help, some _ => .error (.usage .unexpectedValue)
      | some .version, some _ => .error (.usage .unexpectedValue)
      | some switch, value => do scan c (← s.switch c value switch) args
    | .short letter rest =>
      match shortSwitch? c.options letter with
      | none => .error (.usage .unknownArgument)
      | some switch => do scan c (← s.switch c (attached rest) switch) args
    | .plain =>
      match s.pending with
      | some (o, none) => scan c { s with pending := some (o, some arg) } args
      | _ => .error (.usage .unknownArgument)

/-! ## Commands -/

/-- The command that asks for help, about another command or not. -/
def helpWord : String := "help"

def isWord (arg : String) : Bool :=
  (CommandName.ofWord? arg).isSome || arg == helpWord

/-- Reads the arguments behind the word for help. -/
def askedHelp (args : List String) : Refusal :=
  if args.length ≤ 1 && args.all isWord then .help else .usage .unknownCommand

/-- The command that arguments stand for. -/
def parse : List String → Except Refusal Command
  | [] => .error (.usage .noCommand)
  | arg :: args =>
    match token arg with
    | .separator =>
      match args with
      | [] => .error (.usage .noCommand)
      | next :: _ =>
        .error (.usage (if isWord next then .unknownArgument else .unknownCommand))
    | .long name value =>
      match longSwitch? [] name, value with
      | some .help, none => .error .help
      | some .version, none => .error (.version none)
      | some _, some _ => .error (.usage .unexpectedValue)
      | _, _ => .error (.usage .unknownArgument)
    | .short letter _ =>
      match shortSwitch? [] letter with
      | some .help => .error .help
      | some .version => .error (.version none)
      | _ => .error (.usage .unknownArgument)
    | .plain =>
      if arg = helpWord then .error (askedHelp args)
      else match CommandName.ofWord? arg with
        | some c => do return c.command (← scan c {} args).settings
        | none => .error (.usage .unknownCommand)

end SessionGrid.CommandLine
