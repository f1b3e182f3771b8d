import RegisterMachine.Text.Integer

namespace RegisterMachine.Command

/-- The commands of the command line. -/
inductive Verb where
  | run
  | check
  | opcodes
  deriving DecidableEq, Repr

def Verb.ofName? : String → Option Verb
  | "run" => some .run
  | "check" => some .check
  | "opcodes" => some .opcodes
  | _ => none

/-- The options of the command line. -/
inductive Parameter where
  | config
  | quiet
  | verbose
  | version
  | input
  | delay
  | maxSteps
  | trace
  | allowErrors
  | json
  deriving DecidableEq, Repr

namespace Parameter

def long : Parameter → String
  | config => "config"
  | quiet => "quiet"
  | verbose => "verbose"
  | version => "version"
  | input => "input"
  | delay => "delay-ms"
  | maxSteps => "max-steps"
  | trace => "trace"
  | allowErrors => "allow-errors"
  | json => "json"

def short? : Parameter → Option Char
  | config => some 'c'
  | quiet => some 'q'
  | verbose => some 'v'
  | version => some 'V'
  | input => some 'i'
  | _ => none

def takesValue : Parameter → Bool
  | config | input | delay | maxSteps => true
  | _ => false

/-- Whether the argument that follows the option is its value. An input may look like an option;
other values may not. -/
def admits : Parameter → String → Bool
  | input, _ => true
  | _, value => value == "-" || value.toList.head? != some '-'

end Parameter

/-- The options that can be given before a command, and behind one. -/
def available : Option Verb → List Parameter
  | none => [.config, .quiet, .verbose, .version]
  | some .run =>
    [.config, .quiet, .verbose, .input, .delay, .maxSteps, .trace, .allowErrors]
  | some .check => [.config, .quiet, .verbose]
  | some .opcodes => [.config, .quiet, .verbose, .json]

/-- Why the arguments are not followed: they are wrong, or the version was asked for first. -/
inductive Stop where
  | usage
  | version
  deriving DecidableEq, Repr

/-- What an argument says about options. -/
inductive Piece where
  | flag (parameter : Parameter)
  | valued (parameter : Parameter) (value : String)
  | awaiting (parameter : Parameter)
  | unknown
  deriving DecidableEq, Repr

/-- An option written by its name, with its value behind an equals sign or in the next
argument. -/
def longPiece (level : Option Verb) (text : List Char) : Piece :=
  let name := text.takeWhile (· != '=')
  match (available level).find? fun parameter => parameter.long.toList == name with
  | none => .unknown
  | some parameter =>
    match text.dropWhile (· != '='), parameter.takesValue with
    | [], true => .awaiting parameter
    | [], false => .flag parameter
    | _ :: value, true => .valued parameter (String.ofList value)
    | _ :: _, false => .unknown

/-- Options written by their letters. What follows the letter of an option with a value is the
value, behind an equals sign or not. -/
def shortPieces (level : Option Verb) : List Char → List Piece
  | [] => []
  | letter :: rest =>
    match (available level).find? fun parameter => parameter.short? == some letter with
    | none => [.unknown]
    | some parameter =>
      if parameter.takesValue then
        match rest with
        | [] => [.awaiting parameter]
        | '=' :: value => [.valued parameter (String.ofList value)]
        | value => [.valued parameter (String.ofList value)]
      else .flag parameter :: shortPieces level rest

/-- The options in an argument, unless it is an operand. -/
def pieces? (level : Option Verb) (argument : String) : Option (List Piece) :=
  match argument.toList with
  | '-' :: '-' :: text => some [longPiece level text]
  | '-' :: letter :: letters => some (shortPieces level (letter :: letters))
  | _ => none

/-- The options and operands given at one level of the command line. -/
structure Given where
  config : Option String := none
  quiet : Bool := false
  verbose : Bool := false
  inputs : List String := []
  delay : Option UInt64 := none
  maxSteps : Option UInt64 := none
  trace : Bool := false
  allowErrors : Bool := false
  json : Bool := false
  operands : List String := []
  deriving DecidableEq, Repr

namespace Given

/-- Sets a flag, which may be done once. -/
def raise (given : Given) : Parameter → Except Stop Given
  | .version => .error .version
  | .quiet => if given.quiet then .error .usage else .ok { given with quiet := true }
  | .verbose => if given.verbose then .error .usage else .ok { given with verbose := true }
  | .trace => if given.trace then .error .usage else .ok { given with trace := true }
  | .allowErrors =>
    if given.allowErrors then .error .usage else .ok { given with allowErrors := true }
  | .json => if given.json then .error .usage else .ok { given with json := true }
  | .config | .input | .delay | .maxSteps => .error .usage

/-- Gives an option its value. Inputs add up; another option may be given once. -/
def assign (given : Given) (value : String) : Parameter → Except Stop Given
  | .input => .ok { given with inputs := given.inputs ++ [value] }
  | .config =>
    if given.config.isSome || value == "" then .error .usage
    else .ok { given with config := some value }
  | .delay =>
    match given.delay, Text.readUInt64 value with
    | none, .ok delay => .ok { given with delay := some delay }
    | _, _ => .error .usage
  | .maxSteps =>
    match given.maxSteps, Text.readUInt64 value with
    | none, .ok limit => .ok { given with maxSteps := some limit }
    | _, _ => .error .usage
  | .quiet | .verbose | .version | .trace | .allowErrors | .json => .error .usage

/-- Takes over what an argument says, from left to right, and gives the option that awaits
its value. -/
def addPieces (given : Given) : List Piece → Except Stop (Given × Option Parameter)
  | [] => .ok (given, none)
  | .flag parameter :: rest =>
    match given.raise parameter with
    | .error stop => .error stop
    | .ok given => given.addPieces rest
  | .valued parameter value :: rest =>
    match given.assign value parameter with
    | .error stop => .error stop
    | .ok given => given.addPieces rest
  | .awaiting parameter :: _ => .ok (given, some parameter)
  | .unknown :: _ => .error .usage

end Given

/-- Reads the arguments of a level. Before a command the first operand ends the level and is
left with what follows it; behind a command all operands belong to it, and two hyphens make
operands of all that follows. -/
def scan (level : Option Verb) (given : Given) :
    List String → Except Stop (Given × List String)
  | [] => .ok (given, [])
  | argument :: rest =>
    if argument = "--" then
      match level with
      | none => .error .usage
      | some _ => .ok ({ given with operands := given.operands ++ rest }, [])
    else
      match pieces? level argument with
      | none =>
        match level with
        | none => .ok (given, argument :: rest)
        | some _ => scan level { given with operands := given.operands ++ [argument] } rest
      | some pieces =>
        match given.addPieces pieces with
        | .error stop => .error stop
        | .ok (given, none) => scan level given rest
        | .ok (given, some parameter) =>
          match rest with
          | [] => .error .usage
          | value :: rest =>
            if parameter.admits value then
              match given.assign value parameter with
              | .error stop => .error stop
              | .ok given => scan level given rest
            else .error .usage

/-- What is to be done. -/
inductive Task where
  | run (file : String) (inputs : List String) (delay maxSteps : Option UInt64)
      (trace allowErrors : Bool)
  | check (file : String)
  | opcodes (json : Bool)
  deriving DecidableEq, Repr

/-- A task with the options that every task takes. -/
structure Invocation where
  task : Task
  config : Option String := none
  quiet : Bool := false
  deriving DecidableEq, Repr

/-- The one file that a command names. -/
def Given.file (given : Given) : Except Stop String :=
  match given.operands with
  | [file] => if file = "" then .error .usage else .ok file
  | _ => .error .usage

def Given.task (given : Given) : Verb → Except Stop Task
  | .run =>
    given.file.map fun file =>
      .run file given.inputs given.delay given.maxSteps given.trace given.allowErrors
  | .check => given.file.map .check
  | .opcodes => if given.operands.isEmpty then .ok (.opcodes given.json) else .error .usage

/-- Reads the arguments. Options for every task may stand on both sides of the command; the
configuration named behind it counts. -/
def Invocation.ofArguments (arguments : List String) : Except Stop Invocation := do
  let (before, rest) ← scan none {} arguments
  match rest with
  | [] => .error .usage
  | name :: rest =>
    match Verb.ofName? name with
    | none => .error .usage
    | some verb =>
      let (behind, _) ← scan (some verb) {} rest
      let task ← behind.task verb
      return {
        task
        config := behind.config <|> before.config
        quiet := before.quiet || behind.quiet }

/-- The files that an invocation may read. -/
def Invocation.paths (invocation : Invocation) : List String :=
  invocation.config.toList ++
    match invocation.task with
    | .run file .. | .check file => [file]
    | .opcodes _ => []

end RegisterMachine.Command
