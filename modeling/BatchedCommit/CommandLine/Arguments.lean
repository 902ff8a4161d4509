import BatchedCommit.CommandLine

/-!
# BatchedCommit.CommandLine.Arguments

Reading the arguments of a command line. They have two levels: the options before the name of
the command, and those after it. The option for the log level may stand on either, and the
one after the command counts.

The value of an option is the argument after it, or stands after an equals sign in the same
argument. A value of the first sort is taken in without a look at it, and is checked at the
next option or at the end of its level; so a mistake that comes before that is reported first.
The options before the command are checked last of all.
-/

namespace BatchedCommit

namespace CommandLine

/-! ## Names -/

/-- The options that have a value. -/
inductive OptionName where
  /-- The least severity that is logged. -/
  | logLevel
  /-- The path of the file with the settings. -/
  | config
  /-- The number of workers. -/
  | workers
  /-- The number of commits of each worker. -/
  | commits
  /-- How long an emission takes. -/
  | emitDelay
  /-- Which emissions fail. -/
  | failEvery
  deriving DecidableEq

/-- The name of an option, without the dashes before it. -/
def OptionName.text : OptionName → String
  | logLevel => "log-level"
  | config => "config"
  | workers => "workers"
  | commits => "commits"
  | emitDelay => "emit-delay-ms"
  | failEvery => "fail-every"

/-- The commands by their names. -/
inductive CommandName where
  /-- Show settings. -/
  | checkConfig
  /-- Run a simulation. -/
  | simulate
  deriving DecidableEq

/-- Every command. -/
def CommandName.all : List CommandName := [checkConfig, simulate]

/-- The name of a command. -/
def CommandName.text : CommandName → String
  | checkConfig => "check-config"
  | simulate => "simulate"

/-- The command of a given name. -/
def CommandName.ofText? (text : String) : Option CommandName := all.find? (·.text == text)

/-- The word that asks for help in the place of a command. -/
def helpWord : String := "help"

/-- A level of a command line: before the name of the command, or after it. -/
inductive Level where
  /-- Before the name of the command. -/
  | outer
  /-- After the name of this command. -/
  | inner (command : CommandName)
  deriving DecidableEq

/-- The options that may stand on a level. -/
def Level.options : Level → List OptionName
  | outer => [.logLevel]
  | inner .checkConfig => [.logLevel, .config]
  | inner .simulate => [.logLevel, .config, .workers, .commits, .emitDelay, .failEvery]

/-- The option of a given name on a level. -/
def Level.option? (level : Level) (text : String) : Option OptionName :=
  level.options.find? (·.text == text)

/-! ## Values -/

/-- The values of the options that were given on a level. -/
structure Given where
  /-- The least severity that is logged. -/
  logLevel : Option Severity := none
  /-- The path of the file with the settings. -/
  config : Option String := none
  /-- The number of workers. -/
  workers : Option Nat := none
  /-- The number of commits of each worker. -/
  commits : Option Nat := none
  /-- How long an emission takes. -/
  emitDelay : Option Nat := none
  /-- Which emissions fail. -/
  failEvery : Option Nat := none
  deriving DecidableEq

/-- An option has a value already. -/
def Given.has (given : Given) : OptionName → Bool
  | .logLevel => given.logLevel.isSome
  | .config => given.config.isSome
  | .workers => given.workers.isSome
  | .commits => given.commits.isSome
  | .emitDelay => given.emitDelay.isSome
  | .failEvery => given.failEvery.isSome

/-- Reads a number below 2^64: decimal digits, which may have a plus before them. -/
def readCount (text : String) : Except UsageError Nat :=
  let digits := match text.toList with
    | '+' :: digits => digits
    | digits => digits
  let number : Nat := digits.foldl (fun number c => 10 * number + (c.toNat - '0'.toNat)) 0
  if digits.isEmpty || !digits.all Char.isDigit || decide (UInt64.size ≤ number) then
    .error .notNumber
  else .ok number

/-- The given values with one more, which is read from its text. -/
def Given.add (given : Given) (option : OptionName) (text : String) : Except UsageError Given :=
  if given.has option then .error .repeated
  else
    match option with
    | .logLevel =>
      match Severity.ofWord? text with
      | some level => .ok { given with logLevel := some level }
      | none => .error .invalidValue
    | .config =>
      if text.isEmpty then .error .invalidValue else .ok { given with config := some text }
    | .workers => (readCount text).map fun n => { given with workers := some n }
    | .commits => (readCount text).map fun n => { given with commits := some n }
    | .emitDelay => (readCount text).map fun n => { given with emitDelay := some n }
    | .failEvery => (readCount text).map fun n => { given with failEvery := some n }

/-! ## Single arguments -/

/-- The form of an argument. -/
inductive Form where
  /-- Two dashes alone. -/
  | dashes
  /-- Two dashes and a name, with a value if there is an equals sign. -/
  | long (name : String) (value : Option String)
  /-- One dash and letters, of which this is the first. -/
  | short (letter : Char)
  /-- Anything else. -/
  | plain

/-- The form of an argument. -/
def Form.ofText (text : String) : Form :=
  match text.toList with
  | ['-', '-'] => dashes
  | '-' :: '-' :: name =>
    match name.dropWhile (· != '=') with
    | [] => long (String.ofList name) none
    | _ :: value => long (String.ofList (name.takeWhile (· != '='))) (some (String.ofList value))
  | '-' :: letter :: _ => short letter
  | _ => plain

/-! ## Levels -/

/-- How far a level has been read. -/
structure Reading where
  /-- The values that were checked. -/
  given : Given := {}
  /-- The option that was given last, with its value if that has come; both are still to be
      checked. -/
  pending : Option (OptionName × Option String) := none

/-- Checks the option that was given last. -/
def Reading.settle (reading : Reading) : Except UsageError Given :=
  match reading.pending with
  | none => .ok reading.given
  | some (_, none) => .error .invalidValue
  | some (option, some text) => reading.given.add option text

/-- The option given last still lacks its value. -/
def Reading.awaits? (reading : Reading) : Option OptionName :=
  match reading.pending with
  | some (option, none) => some option
  | _ => none

/-- An option is given, perhaps with its value. -/
def Reading.give (reading : Reading) (option : OptionName) (value : Option String) :
    Except UsageError Reading :=
  match reading.settle with
  | .error error => .error error
  | .ok given =>
    match value with
    | some text => (given.add option text).map fun given => { given }
    | none => .ok { given, pending := some (option, none) }

/-- A flag is given that ends the reading in this way. -/
def Reading.stop (reading : Reading) (reason : UsageError) : UsageError :=
  match reading.settle with
  | .error error => error
  | .ok _ => reason

/-- The flag that an argument is on a level, if it is one. -/
def Level.flag? (level : Level) (long : String) : Option UsageError :=
  if long = "help" then some .help
  else if long = "version" ∧ level = .outer then some .version
  else none

/-- The flag of a letter on a level, if there is one. -/
def Level.letter? (level : Level) (letter : Char) : Option UsageError :=
  if letter = 'h' then some .help
  else if letter = 'V' ∧ level = .outer then some .version
  else none

/-- Why a plain argument may not stand on a level. After two dashes, the name of a command is
    one argument too many. -/
def Level.misplaced (level : Level) (afterDashes : Bool) (text : String) : UsageError :=
  match level with
  | .inner _ => .unknownArgument
  | .outer =>
    if afterDashes && ((CommandName.ofText? text).isSome || text == helpWord) then
      .unknownArgument
    else .unknownCommand

/-- What the arguments after the word for help ask for: the help for a command, or for the
    word itself, or for nothing in particular. -/
def helpTopic : List String → UsageError
  | [] => .help
  | [topic] =>
    if (CommandName.ofText? topic).isSome || topic == helpWord then .help else .unknownCommand
  | _ => .unknownCommand

/-- Reads the arguments of one level. On the outer level it ends at the name of the command;
    answers that, and the arguments after it. -/
def readLevel (level : Level) (reading : Reading) :
    List String → Except UsageError (Reading × Option (CommandName × List String))
  | [] => .ok (reading, none)
  | text :: rest =>
    match Form.ofText text with
    | .dashes =>
      match rest with
      | [] => .ok (reading, none)
      | next :: _ => .error (level.misplaced true next)
    | .long name value =>
      match level.option? name with
      | some option =>
        match reading.give option value with
        | .error error => .error error
        | .ok reading => readLevel level reading rest
      | none =>
        match level.flag? name with
        | none => .error .unknownArgument
        | some reason => .error (if value.isSome then .unneededValue else reading.stop reason)
    | .short letter =>
      match level.letter? letter with
      | none => .error .unknownArgument
      | some reason => .error (reading.stop reason)
    | .plain =>
      match reading.awaits? with
      | some option =>
        readLevel level { reading with pending := some (option, some text) } rest
      | none =>
        match level, CommandName.ofText? text with
        | .outer, some command => .ok (reading, some (command, rest))
        | .outer, none =>
          .error (if text = helpWord then helpTopic rest else level.misplaced false text)
        | .inner _, _ => .error (level.misplaced false text)

/-! ## Command lines -/

/-- The path of the file with the settings where none is given. -/
def defaultPath : String := "./groupcommit.json"

/-- The command with the options that were given for it, and the defaults of the others. -/
def Given.command (given : Given) : CommandName → Command
  | .checkConfig => .checkConfig (given.config.getD defaultPath)
  | .simulate =>
    .simulate (given.config.getD defaultPath)
      { workers := given.workers.getD 4
        commits := given.commits.getD 100
        emitDelay := given.emitDelay.getD 1
        failEvery := given.failEvery }

/-- Reads the arguments of a command line. -/
def Invocation.ofArguments (arguments : List String) : Except UsageError Invocation :=
  match readLevel .outer {} arguments with
  | .error error => .error error
  | .ok (outer, none) =>
    match outer.settle with
    | .error error => .error error
    | .ok given => .error (if given.logLevel.isSome then .missingCommand else .noArguments)
  | .ok (outer, some (command, rest)) =>
    match readLevel (.inner command) {} rest with
    | .error error => .error error
    | .ok (inner, _) =>
      match inner.settle with
      | .error error => .error error
      | .ok given =>
        match outer.settle with
        | .error error => .error error
        | .ok before =>
          .ok
            { logLevel := ((given.logLevel.or before.logLevel)).getD .info
              command := given.command command }

end CommandLine

end BatchedCommit
