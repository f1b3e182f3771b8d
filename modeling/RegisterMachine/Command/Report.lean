import RegisterMachine.Command.Arguments
import RegisterMachine.Session.Trace
import RegisterMachine.Settings.Reader
import RegisterMachine.Text.Basic

namespace RegisterMachine.Command

/-- What the command line leaves behind: the code with which it ends, unless it goes on, and its
two texts as far as they go. -/
structure Report where
  exit : Option UInt8 := some 0
  out : String := ""
  err : String := ""
  deriving DecidableEq, Repr

/-- The memory as it is shown after a run. -/
def memoryText (memory : Memory) : String :=
  let cells := memory.cells.map fun (address, value) =>
    "R" ++ Text.flushLeft 3 (Text.natural address.toNat) ++ "= " ++ Text.decimal value.toInt ++
      "\n"
  "ACC = " ++ Text.decimal memory.accumulator.toInt ++ "\n" ++
    "IP  = " ++ Text.decimal memory.instructionPointer.toInt ++ "\n" ++ String.join cells

/-- The forms of an opcode's operand. -/
def operandForms (descriptor : Descriptor) : String :=
  if descriptor.takesLabel then "label"
  else if descriptor.takesNumber then
    String.intercalate " "
      ((if descriptor.allowsDirect then ["=n"] else []) ++ ["n"] ++
        (if descriptor.allowsPointer then ["*n"] else []))
  else "-"

/-- A row of the table of opcodes. -/
def opcodeRow (mnemonic operand description : String) : String :=
  Text.flushLeft 8 mnemonic ++ " " ++ Text.flushLeft 10 operand ++ " " ++ description ++ "\n"

def opcodesText (table : OpcodeTable) : String :=
  opcodeRow "OPCODE" "OPERAND" "DESCRIPTION" ++
    String.join (table.descriptors.map fun descriptor =>
      opcodeRow descriptor.mnemonic (operandForms descriptor) descriptor.description)

/-- Diagnostics, each with the file it is about. -/
def diagnosticsText (file : String) (diagnostics : List Source.Diagnostic) : String :=
  String.join (diagnostics.map fun diagnostic => file ++ ":" ++ diagnostic.text ++ "\n")

/-- The columns of a trace. -/
def traceColumns (pointer operation accumulator : String) : String :=
  Text.flushRight 4 pointer ++ " | " ++ Text.flushLeft 24 operation ++ " | " ++ accumulator ++
    "\n"

/-- A row of a trace, and below it the line that the step emitted. -/
def traceRowText (row : TraceRow) : String :=
  traceColumns (Text.decimal row.pointer.toInt) row.raw (Text.decimal row.accumulator.toInt) ++
    match row.line with
    | none => ""
    | some line => "     > " ++ line ++ "\n"

def traceText (rows : List TraceRow) : String :=
  traceColumns "IP" "OPERATION" "ACC" ++ String.join (rows.map traceRowText)

/-- The lines of a finished run. -/
def linesText (lines : List String) : String :=
  String.join (lines.map (· ++ "\n"))

/-- What is shown of a run before it starts. -/
def runHeader (file : String) (session : Session) : String :=
  let delay := session.settings.stepDelay
  "Running: " ++ file ++ " (" ++ Text.natural session.program.size ++ " operations)\n" ++
    (if delay = 0 then "" else "Step delay: " ++ Text.natural delay.toNat ++ " ms\n") ++ "\n"

/-- What is shown of the session after a run. -/
def runFooter (session : Session) : String :=
  "\n--- " ++ session.state.name ++ " after " ++ Text.natural session.steps.toNat ++
    " steps ---\n" ++ memoryText session.memory

/-- What is shown of a step that failed. -/
def faultText (quiet : Bool) (fault : Fault) (memory : Memory) : String :=
  "\n=== RUNTIME ERROR ===\n\n" ++ fault.summary ++ "\n" ++
    if quiet then "" else "\n--- Memory ---\n" ++ memoryText memory

/-- Adds to a report what a run came to; `print` shows the lines of a run that ended well. A run
that is not over has shown nothing yet. -/
def Report.close (report : Report) (quiet : Bool) (print : List String → String)
    (outcome : Outcome) (session : Session) : Report :=
  match outcome with
  | .failed fault =>
    { report with exit := some 1, err := report.err ++ faultText quiet fault session.memory }
  | .finished lines =>
    { report with
      exit := some (if session.state = .interrupted then 1 else 0)
      out := report.out ++ print lines ++ if quiet then "" else runFooter session }
  | .abandoned => { report with exit := some 1 }
  | .unfinished _ => { report with exit := none }

/-- Runs a loaded program, step by step if it is to be traced. -/
def runLoaded (quiet trace : Bool) (report : Report) (session : Session)
    (inputs : List String) (limit : Nat) : Report :=
  if trace then
    let (rows, outcome, session) := session.trace inputs limit
    let report := { report with out := report.out ++ traceText rows }
    report.close quiet (fun _ => "") outcome session
  else
    let (outcome, session) := session.runPaced inputs Session.undisturbed limit
    report.close quiet linesText outcome session

/-- A session of the random access machine with a program from a file. -/
def loadFile (reader : Reader) (settings : Settings) (file : String) :
    Except Fault (Session × List Source.Diagnostic) := do
  let text ← reader.readFor "cli::read_program" file
  let session ← Session.create .ram settings
  return session.load (Text.lines text)

def runFile (reader : Reader) (settings : Settings) (quiet : Bool) (file : String)
    (inputs : List String) (trace allowErrors : Bool) (limit : Nat) : Except Fault Report := do
  let (session, diagnostics) ← loadFile reader settings file
  let complaints := diagnosticsText file diagnostics
  if diagnostics.isEmpty || allowErrors then
    let header := if quiet then "" else runHeader file session
    return runLoaded quiet trace { out := header, err := complaints } session inputs limit
  else
    return {
      exit := some 1
      err := complaints ++ Text.natural diagnostics.length ++
        " line(s) failed to parse; pass --allow-errors to run anyway\n" }

def checkFile (reader : Reader) (settings : Settings) (quiet : Bool) (file : String) :
    Except Fault Report := do
  let (session, diagnostics) ← loadFile reader settings file
  let total :=
    file ++ ": " ++ Text.natural session.program.size ++ " operations, " ++
      Text.natural diagnostics.length ++ " errors\n"
  return {
    exit := some (if diagnostics.isEmpty then 0 else 1)
    out := if quiet then "" else total
    err := diagnosticsText file diagnostics }

def showOpcodes (settings : Settings) (json : Bool) : Except Fault Report := do
  let session ← Session.create .ram settings
  let table := session.table
  if json then
    return { out := Json.objectLines (table.descriptors.map Descriptor.members) ++ "\n" }
  else
    return {
      out := session.machine ++ " machine, " ++ Text.natural table.size ++ " opcodes\n\n" ++
        opcodesText table }

/-- The settings of an invocation: those of its file, or the usual ones. -/
def Invocation.settings (invocation : Invocation) (reader : Reader) : Except Fault Settings :=
  match invocation.config with
  | none => .ok {}
  | some path => Settings.load reader path

/-- Does the task of an invocation; the settings are read before the program. -/
def Invocation.perform (invocation : Invocation) (reader : Reader) (limit : Nat) :
    Except Fault Report := do
  let settings ← invocation.settings reader
  match invocation.task with
  | .run file inputs delay maxSteps trace allowErrors =>
    let settings :=
      { settings with
        stepDelay := delay.getD settings.stepDelay
        maxSteps := maxSteps <|> settings.maxSteps }
    runFile reader settings invocation.quiet file inputs trace allowErrors limit
  | .check file => checkFile reader settings invocation.quiet file
  | .opcodes json => showOpcodes settings json

/-- The report of an invocation; a fault outside the program ends it with code 2. -/
def Invocation.report (invocation : Invocation) (reader : Reader)
    (limit : Nat := Session.fuel) : Report :=
  match invocation.perform reader limit with
  | .ok report => report
  | .error fault => { exit := some 2, err := "Error: " ++ fault.summary ++ "\n" }

/-- What is shown when the version is asked for. -/
def versionReport : Report where
  out := "rammachine 0.1.0\n"

end RegisterMachine.Command
