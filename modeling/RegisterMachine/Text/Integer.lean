namespace RegisterMachine.Text

/-- Why a text is not the text of an integer in a given range. -/
inductive IntegerFault where
  | empty
  | invalidDigit
  | tooLarge
  | tooSmall
  deriving DecidableEq, Repr

def IntegerFault.message : IntegerFault → String
  | .empty => "cannot parse integer from empty string"
  | .invalidDigit => "invalid digit found in string"
  | .tooLarge => "number too large to fit in target type"
  | .tooSmall => "number too small to fit in target type"

/-- The integers from `low` to `high`, both included. -/
structure IntegerRange where
  low : Int
  high : Int

/-- The values of 64-bit signed words. -/
def IntegerRange.signed64 : IntegerRange := ⟨-0x8000000000000000, 0x7FFFFFFFFFFFFFFF⟩

/-- The values of 64-bit unsigned words. -/
def IntegerRange.unsigned64 : IntegerRange := ⟨0, 0xFFFFFFFFFFFFFFFF⟩

/-- The value of an ASCII digit. -/
def digit? (c : Char) : Option Nat :=
  if c.isDigit then some (c.toNat - '0'.toNat) else none

/-- Reads digits behind those that gave `value`, away from zero on the side of the sign.
At each character a wrong digit is noticed before the value leaves the range. -/
def IntegerRange.readDigits (r : IntegerRange) (negative : Bool) (value : Int) :
    List Char → Except IntegerFault Int
  | [] => .ok value
  | c :: cs =>
    match digit? c with
    | none => .error .invalidDigit
    | some d =>
      let next := if negative then value * 10 - d else value * 10 + d
      if r.high < next then .error .tooLarge
      else if next < r.low then .error .tooSmall
      else r.readDigits negative next cs

/-- Reads an optional sign and one or more digits. A minus is a sign only in a range
that has negative members. -/
def IntegerRange.read (r : IntegerRange) : List Char → Except IntegerFault Int
  | [] => .error .empty
  | ['+'] => .error .invalidDigit
  | ['-'] => .error .invalidDigit
  | '+' :: cs => r.readDigits false 0 cs
  | '-' :: cs => if r.low < 0 then r.readDigits true 0 cs else .error .invalidDigit
  | cs => r.readDigits false 0 cs

/-- Reads the text of a 64-bit signed integer. -/
def readInt64 (s : String) : Except IntegerFault Int64 :=
  (IntegerRange.signed64.read s.toList).map Int64.ofInt

/-- Reads the text of a 64-bit unsigned integer. -/
def readUInt64 (s : String) : Except IntegerFault UInt64 :=
  (IntegerRange.unsigned64.read s.toList).map fun n => UInt64.ofNat n.toNat

/-- The decimal digits of a natural number, without leading zeros. -/
def natural (n : Nat) : String :=
  String.ofList (Nat.toDigits 10 n)

/-- The decimal text of an integer, with a sign only below zero. -/
def decimal (n : Int) : String :=
  if n < 0 then "-" ++ natural n.natAbs else natural n.natAbs

end RegisterMachine.Text
