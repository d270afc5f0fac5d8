import ProjectGraph.Deprecation.WarningMode

/-!
Command lines. Options that concern every command may stand in front of the command or behind it; behind it
they count more. An option with a value takes it from behind `=` or from the next argument. A value given in
the next argument is looked at when the next option comes or the line ends, any other value at once.
-/

namespace ProjectGraph

inductive Command where
  /-- Resolve the target of every edge in the build. -/
  | check
  /-- Print what is reached from a configuration. -/
  | closure (project configuration : String) (intransitive : Bool)
  /-- Print the tasks that the edges of a configuration need. -/
  | tasks (project configuration : String)
  /-- Resolve the files of each edge directly. -/
  | files (project configuration : String) (intransitive : Bool)
  deriving DecidableEq

structure Arguments where
  verbosity : Nat
  build : Option String
  warningMode : Option WarningMode
  command : Command
  deriving DecidableEq

/-- Why a command line is not carried out. -/
inductive UsageError where
  | help
  | version
  | nothingGiven
  | missingCommand
  | unknownCommand
  | unknownArgument
  | missingArgument
  | missingValue
  | badValue
  | unwantedValue
  | repeated
  deriving DecidableEq

namespace CommandLine

/-- What arguments a place on the line takes besides the common ones. -/
structure Level where
  /-- Whether a command is still to come. -/
  awaitsCommand : Bool
  positionals : Nat
  hasIntransitive : Bool

def topLevel : Level := ⟨true, 0, false⟩

/-- The commands by name. -/
def commandLevel? : String → Option Level
  | "check" => some ⟨false, 0, false⟩
  | "closure" => some ⟨false, 2, true⟩
  | "tasks" => some ⟨false, 2, false⟩
  | "files" => some ⟨false, 2, true⟩
  | _ => none

/-- Whether an argument is the name of a command, or asks for help on one. -/
def isCommand (arg : String) : Bool := (commandLevel? arg).isSome || arg == "help"

/-- The options that take a value. -/
inductive ValueOption where
  | build
  | warningMode
  deriving DecidableEq

/-- What was read at a level. -/
structure Reading where
  verbosity : Nat
  build : Option String
  warningMode : Option WarningMode
  intransitive : Bool
  positionals : List String
  /-- An option whose value, if it is there already, has not been looked at. -/
  pending : Option (ValueOption × Option String)
  /-- Behind `--` everything is positional. -/
  trailing : Bool
  deriving Inhabited

namespace Reading

def start : Reading := ⟨0, none, none, false, [], none, false⟩

/-- Whether nothing was given. -/
def isNothing (r : Reading) : Bool := r.verbosity == 0 && r.build.isNone && r.warningMode.isNone

/-- Looks at the value of an option. -/
def assign (r : Reading) (o : ValueOption) (value : String) : Except UsageError Reading :=
  match o with
  | .build =>
    if r.build.isSome then .error .repeated
    else if value.isEmpty then .error .missingValue
    else .ok { r with build := some value }
  | .warningMode =>
    if r.warningMode.isSome then .error .repeated
    else match WarningMode.parse value with
      | .ok mode => .ok { r with warningMode := some mode }
      | .error _ => .error .badValue

/-- Looks at what is pending. -/
def settle (r : Reading) : Except UsageError Reading :=
  match r.pending with
  | none => .ok r
  | some (_, none) => .error .missingValue
  | some (o, some value) => { r with pending := none }.assign o value

/-- An option whose value comes in the next argument. -/
def await (r : Reading) (o : ValueOption) : Except UsageError Reading := do
  return { (← r.settle) with pending := some (o, none) }

def attach (r : Reading) (o : ValueOption) (value : String) : Except UsageError Reading := do
  (← r.settle).assign o value

def countVerbose (r : Reading) : Except UsageError Reading := do
  let r ← r.settle
  return { r with verbosity := r.verbosity + 1 }

def setIntransitive (r : Reading) : Except UsageError Reading := do
  let r ← r.settle
  if r.intransitive then .error .repeated else return { r with intransitive := true }

def valueOption? : String → Option ValueOption
  | "build" => some .build
  | "warning-mode" => some .warningMode
  | _ => none

/-- An option that takes no value. -/
def flag (r : Reading) (level : Level) (name : String) : Except UsageError Reading :=
  match name with
  | "verbose" => r.countVerbose
  | "help" => do
    let _ ← r.settle
    .error .help
  | "version" => do
    let _ ← r.settle
    .error .version
  | "intransitive" => if level.hasIntransitive then r.setIntransitive else .error .unknownArgument
  | _ => .error .unknownArgument

def isFlag (level : Level) (name : String) : Bool :=
  name == "verbose" || name == "help" || name == "version" ||
    (name == "intransitive" && level.hasIntransitive)

/-- A long option, without its dashes. -/
def long (r : Reading) (level : Level) (cs : List Char) : Except UsageError Reading :=
  let name := String.ofList (cs.takeWhile (· != '='))
  match valueOption? name, cs.dropWhile (· != '=') with
  | some o, [] => r.await o
  | some o, _ :: value => r.attach o (String.ofList value)
  | none, [] => r.flag level name
  | none, _ :: _ => .error (if isFlag level name then .unwantedValue else .unknownArgument)

/-- Short options in one argument, without the dash. -/
def short (r : Reading) : List Char → Except UsageError Reading
  | [] => .ok r
  | 'v' :: cs => do (← r.countVerbose).short cs
  | 'b' :: [] => r.await .build
  | 'b' :: '=' :: value => r.attach .build (String.ofList value)
  | 'b' :: value => r.attach .build (String.ofList value)
  | 'h' :: _ => do
    let _ ← r.settle
    .error .help
  | 'V' :: _ => do
    let _ ← r.settle
    .error .version
  | _ => .error .unknownArgument

/-- An argument that is no option. -/
def positional (r : Reading) (level : Level) (arg : String) : Except UsageError Reading :=
  if r.positionals.length < level.positionals then do
    let r ← r.settle
    return { r with positionals := r.positionals ++ [arg] }
  else if level.awaitsCommand then
    .error (if r.trailing && isCommand arg then .unknownArgument else .unknownCommand)
  else .error .unknownArgument

/-- Any argument that is no command. -/
def argument (r : Reading) (level : Level) (arg : String) : Except UsageError Reading :=
  if r.trailing then r.positional level arg
  else
    match arg.toList, r.pending with
    | ['-', '-'], _ => .ok { r with trailing := true }
    | '-' :: '-' :: cs, _ => r.long level cs
    | '-' :: c :: cs, _ => r.short (c :: cs)
    | _, some (o, none) => .ok { r with pending := some (o, some arg) }
    | _, _ => r.positional level arg

/-- Whether the next argument may be a command. -/
def takesCommand (r : Reading) : Bool :=
  !r.trailing && (match r.pending with
    | some (_, none) => false
    | _ => true)

end Reading

/-- Reads the arguments behind a command. -/
def readBehind (level : Level) (args : List String) : Except UsageError Reading := do
  let r ← args.foldlM (·.argument level ·) Reading.start
  let r ← r.settle
  if r.positionals.length < level.positionals then .error .missingArgument else return r

/-- Reads the arguments in front of a command; gives the command and what stands behind it. -/
def readFront (r : Reading) : List String → Except UsageError (Reading × Option (String × List String))
  | [] => .ok (r, none)
  | arg :: args =>
    if r.takesCommand && isCommand arg then .ok (r, some (arg, args))
    else do readFront (← r.argument topLevel arg) args

/-- Asking for help on a command. -/
def helpOn : List String → UsageError
  | [] => .help
  | [name] => if isCommand name then .help else .unknownCommand
  | _ => .unknownCommand

/-- The command that was read. -/
def command (name : String) (r : Reading) : Option Command :=
  match name, r.positionals with
  | "check", _ => some .check
  | "closure", [project, configuration] => some (.closure project configuration r.intransitive)
  | "tasks", [project, configuration] => some (.tasks project configuration)
  | "files", [project, configuration] => some (.files project configuration r.intransitive)
  | _, _ => none

end CommandLine

/-- Reads a command line. -/
def Arguments.parse (args : List String) : Except UsageError Arguments := do
  match ← CommandLine.readFront .start args with
  | (front, none) =>
    let front ← front.settle
    .error (if front.isNothing then .nothingGiven else .missingCommand)
  | (front, some (name, behind)) =>
    match CommandLine.commandLevel? name with
    | none => .error (CommandLine.helpOn behind)
    | some level =>
      let r ← CommandLine.readBehind level behind
      let front ← front.settle
      match CommandLine.command name r with
      | none => .error .missingArgument
      | some command => return {
          verbosity := if r.verbosity = 0 then front.verbosity else r.verbosity
          build := r.build <|> front.build
          warningMode := r.warningMode <|> front.warningMode
          command := command }

end ProjectGraph
