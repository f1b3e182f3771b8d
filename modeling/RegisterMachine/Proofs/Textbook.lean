import RegisterMachine.Fault
import RegisterMachine.Proofs.Numerals

namespace RegisterMachine.Textbook

/-- A register, given by its number or by the register that holds its number. -/
inductive Cell where
  | numbered (number : Nat)
  | through (number : Nat)
  deriving DecidableEq, Repr

inductive Operand where
  | constant (value : Int)
  | content (cell : Cell)
  deriving DecidableEq, Repr

inductive Operator where
  | add
  | subtract
  | multiply
  | divide
  deriving DecidableEq, Repr

inductive Command where
  | load (operand : Operand)
  | store (cell : Cell)
  | compute (operator : Operator) (operand : Operand)
  | read (cell : Cell)
  | write (operand : Operand)
  | jump (label : String)
  | jumpIfZero (label : String)
  | jumpIfPositive (label : String)
  | halt
  deriving DecidableEq, Repr

structure Line where
  label : Option String
  command : Command
  deriving DecidableEq, Repr

/-- Why the machine has no next state. -/
inductive Undefined where
  | stopped
  | zeroDivisor
  | missingLabel
  | negativeDereference
  | noInput
  | unreadableInput
  deriving DecidableEq, Repr

/-- The kind of fault by which a machine shows that a step is undefined. -/
def Undefined.kind : Undefined → Fault.Kind
  | .stopped => .instructionPointerOutOfRange
  | .zeroDivisor => .divisionByZero
  | .missingLabel => .labelNotFound
  | .negativeDereference => .negativeRegister
  | .noInput => .inputExhausted
  | .unreadableInput => .invalidInput

/-- Unbounded integers in an accumulator and in one register for every natural number, a counter
and the input that is still to be read. -/
structure State where
  accumulator : Int
  registers : Nat → Int
  counter : Nat
  tokens : List String

/-- Division truncates toward zero. -/
def Operator.apply : Operator → Int → Int → Except Undefined Int
  | .add, a, b => .ok (a + b)
  | .subtract, a, b => .ok (a - b)
  | .multiply, a, b => .ok (a * b)
  | .divide, a, b => if b = 0 then .error .zeroDivisor else .ok (a.tdiv b)

namespace State

def address (s : State) : Cell → Except Undefined Nat
  | .numbered number => .ok number
  | .through number =>
    if s.registers number < 0 then .error .negativeDereference
    else .ok (s.registers number).toNat

def value (s : State) : Operand → Except Undefined Int
  | .constant value => .ok value
  | .content cell => (s.address cell).map s.registers

def result (s : State) (operator : Operator) (operand : Operand) : Except Undefined Int :=
  match s.value operand with
  | .error reason => .error reason
  | .ok value => operator.apply s.accumulator value

def advance (s : State) : State :=
  { s with counter := s.counter + 1 }

def setAccumulator (s : State) (value : Int) : State :=
  { s with accumulator := value }

def setRegister (s : State) (number : Nat) (value : Int) : State :=
  { s with registers := fun n => if n = number then value else s.registers n }

def goTo (text : List Line) (s : State) (label : String) : Except Undefined State :=
  match text.findIdx? fun line => line.label == some label with
  | none => .error .missingLabel
  | some index => .ok { s with counter := index }

def execute (text : List Line) (s : State) : Command →
    Except Undefined (Option String × State)
  | .load operand =>
    (s.value operand).map fun value => (none, (s.setAccumulator value).advance)
  | .store cell =>
    (s.address cell).map fun number => (none, (s.setRegister number s.accumulator).advance)
  | .compute operator operand =>
    (s.result operator operand).map fun value => (none, (s.setAccumulator value).advance)
  | .read cell =>
    match s.tokens with
    | [] => .error .noInput
    | token :: rest =>
      match Text.tokenValue? token with
      | none => .error .unreadableInput
      | some value =>
        (s.address cell).map fun number =>
          (none, { s.setRegister number value with tokens := rest }.advance)
  | .write operand => (s.value operand).map fun value => (some value.repr, s.advance)
  | .jump label => (s.goTo text label).map fun t => (none, t)
  | .jumpIfZero label =>
    if s.accumulator = 0 then (s.goTo text label).map fun t => (none, t)
    else .ok (none, s.advance)
  | .jumpIfPositive label =>
    if 0 < s.accumulator then (s.goTo text label).map fun t => (none, t)
    else .ok (none, s.advance)
  | .halt => .ok (none, { s with counter := text.length })

/-- Executes the line at the counter and gives the line of output that it emits. -/
def step (text : List Line) (s : State) : Except Undefined (Option String × State) :=
  match text[s.counter]? with
  | none => .error .stopped
  | some line => s.execute text line.command

/-- Takes up to the given number of steps, and none after one that is undefined. -/
def stepMany (text : List Line) : Nat → State →
    List (Except Undefined (Option String)) × State
  | 0, s => ([], s)
  | times + 1, s =>
    match s.step text with
    | .error reason => ([.error reason], s)
    | .ok (line, t) =>
      let (results, last) := stepMany text times t
      (.ok line :: results, last)

/-- The result of the next line, if it is an operation on the accumulator. -/
def nextResult? (text : List Line) (s : State) : Option Int :=
  match text[s.counter]? with
  | some ⟨_, .compute operator operand⟩ => (s.result operator operand).toOption
  | _ => none

/-- The next line has no result that is not a 64-bit integer. -/
def Fits (text : List Line) (s : State) : Prop :=
  ∀ n ∈ s.nextResult? text, -0x8000000000000000 ≤ n ∧ n ≤ 0x7FFFFFFFFFFFFFFF

instance (text : List Line) (s : State) : Decidable (s.Fits text) :=
  inferInstanceAs (Decidable (∀ n ∈ s.nextResult? text, _))

end State

end RegisterMachine.Textbook
