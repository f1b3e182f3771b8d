import RegisterMachine.Json.Value
import RegisterMachine.Text.Basic

namespace RegisterMachine.Json

/-- Why a text is not a document. -/
inductive Refusal where
  | endOfText
  | unexpected (c : Char)
  | controlCharacter
  | invalidEscape
  | invalidNumber
  | trailingText
  deriving DecidableEq, Repr

def Refusal.message : Refusal → String
  | .endOfText => "the text ends too early"
  | .unexpected c => "unexpected character " ++ Text.shown c
  | .controlCharacter => "control character in a string"
  | .invalidEscape => "invalid escape in a string"
  | .invalidNumber => "invalid number"
  | .trailingText => "text after the end of the document"

/-- The characters that may stand between the parts of a document. -/
def isGap (c : Char) : Bool :=
  c == ' ' || c == '\t' || c == '\n' || c == '\r'

def skipGap (text : List Char) : List Char :=
  text.dropWhile isGap

def hexDigit? (c : Char) : Option Nat :=
  if c.isDigit then some (c.toNat - '0'.toNat)
  else if 'a' ≤ c ∧ c ≤ 'f' then some (c.toNat - 'a'.toNat + 10)
  else if 'A' ≤ c ∧ c ≤ 'F' then some (c.toNat - 'A'.toNat + 10)
  else none

/-- The number that four hexadecimal digits spell. -/
def unitOf? (a b c d : Char) : Option Nat := do
  let high := (← hexDigit? a) * 16 + (← hexDigit? b)
  let low := (← hexDigit? c) * 16 + (← hexDigit? d)
  return high * 256 + low

/-- The character that a letter stands for behind a backslash. -/
def escaped? : Char → Option Char
  | '"' => some '"'
  | '\\' => some '\\'
  | '/' => some '/'
  | 'b' => some (Char.ofNat 0x08)
  | 'f' => some (Char.ofNat 0x0C)
  | 'n' => some '\n'
  | 'r' => some '\r'
  | 't' => some '\t'
  | _ => none

/-- Puts a piece before those that were read. -/
def withPiece (piece : Piece) :
    Except Refusal (List Piece × List Char) → Except Refusal (List Piece × List Char)
  | .ok (pieces, rest) => .ok (piece :: pieces, rest)
  | .error refusal => .error refusal

/-- Reads a string literal from behind its first quote, up to and with its last. -/
def readPieces : List Char → Except Refusal (List Piece × List Char)
  | [] => .error .endOfText
  | '"' :: rest => .ok ([], rest)
  | '\\' :: 'u' :: a :: b :: c :: d :: rest =>
    match unitOf? a b c d with
    | some code => withPiece (.unit code) (readPieces rest)
    | none => .error .invalidEscape
  | '\\' :: e :: rest =>
    match escaped? e with
    | some c => withPiece (.char c) (readPieces rest)
    | none => .error .invalidEscape
  | c :: rest =>
    if c = '\\' then .error .endOfText
    else if c.toNat < 0x20 then .error .controlCharacter
    else withPiece (.char c) (readPieces rest)

/-- Takes the digits at the front, of which there has to be one. -/
def readDigits (text : List Char) : Option (List Char × List Char) :=
  let digits := text.takeWhile Char.isDigit
  if digits.isEmpty then none else some (digits, text.dropWhile Char.isDigit)

/-- Takes a whole number without a leading zero. -/
def readWhole : List Char → Option (List Char × List Char)
  | '0' :: rest => some (['0'], rest)
  | text => readDigits text

/-- Takes a fraction, if there is one. -/
def readFraction : List Char → Option (List Char × List Char)
  | '.' :: rest => (readDigits rest).map fun (digits, rest) => ('.' :: digits, rest)
  | text => some ([], text)

/-- Takes an exponent, if there is one. -/
def readExponent : List Char → Option (List Char × List Char)
  | [] => some ([], [])
  | e :: rest =>
    if e = 'e' ∨ e = 'E' then
      match rest with
      | '+' :: rest => (readDigits rest).map fun (digits, rest) => (e :: '+' :: digits, rest)
      | '-' :: rest => (readDigits rest).map fun (digits, rest) => (e :: '-' :: digits, rest)
      | rest => (readDigits rest).map fun (digits, rest) => (e :: digits, rest)
    else some ([], e :: rest)

/-- Takes a number, as it is spelled. -/
def readNumber (text : List Char) : Option (List Char × List Char) := do
  let (sign, rest) :=
    match text with
    | '-' :: rest => (['-'], rest)
    | text => ([], text)
  let (whole, rest) ← readWhole rest
  let (fraction, rest) ← readFraction rest
  let (exponent, rest) ← readExponent rest
  return (sign ++ whole ++ fraction ++ exponent, rest)

mutual

/-- Reads the value at the front of a text. -/
def readValue : Nat → List Char → Except Refusal (Value × List Char)
  | 0, _ => .error .endOfText
  | fuel + 1, text =>
    match skipGap text with
    | [] => .error .endOfText
    | 'n' :: 'u' :: 'l' :: 'l' :: rest => .ok (.null, rest)
    | 't' :: 'r' :: 'u' :: 'e' :: rest => .ok (.bool true, rest)
    | 'f' :: 'a' :: 'l' :: 's' :: 'e' :: rest => .ok (.bool false, rest)
    | '"' :: rest => do
      let (pieces, rest) ← readPieces rest
      .ok (.string (textOf pieces), rest)
    | '[' :: rest =>
      match skipGap rest with
      | ']' :: rest => .ok (.array [], rest)
      | rest => do
        let (items, rest) ← readItems fuel rest
        .ok (.array items, rest)
    | '{' :: rest =>
      match skipGap rest with
      | '}' :: rest => .ok (.object [], rest)
      | rest => do
        let (members, rest) ← readMembers fuel rest
        .ok (.object members, rest)
    | c :: rest =>
      if c = '-' ∨ c.isDigit then
        match readNumber (c :: rest) with
        | some (literal, rest) => .ok (.number literal, rest)
        | none => .error .invalidNumber
      else .error (.unexpected c)

/-- Reads the items of an array, of which there is one at least, and its closing bracket. -/
def readItems : Nat → List Char → Except Refusal (List Value × List Char)
  | 0, _ => .error .endOfText
  | fuel + 1, text => do
    let (value, rest) ← readValue fuel text
    match skipGap rest with
    | ']' :: rest => .ok ([value], rest)
    | ',' :: rest => do
      let (values, rest) ← readItems fuel rest
      .ok (value :: values, rest)
    | c :: _ => .error (.unexpected c)
    | [] => .error .endOfText

/-- Reads the members of an object, of which there is one at least, and its closing brace. -/
def readMembers :
    Nat → List Char → Except Refusal (List (Option (List Char) × Value) × List Char)
  | 0, _ => .error .endOfText
  | fuel + 1, text =>
    match skipGap text with
    | '"' :: rest => do
      let (pieces, rest) ← readPieces rest
      match skipGap rest with
      | ':' :: rest => do
        let (value, rest) ← readValue fuel rest
        match skipGap rest with
        | '}' :: rest => .ok ([(textOf pieces, value)], rest)
        | ',' :: rest => do
          let (members, rest) ← readMembers fuel rest
          .ok ((textOf pieces, value) :: members, rest)
        | c :: _ => .error (.unexpected c)
        | [] => .error .endOfText
      | c :: _ => .error (.unexpected c)
      | [] => .error .endOfText
    | c :: _ => .error (.unexpected c)
    | [] => .error .endOfText

end

/-- Reads a text that is one document. Each bracket, brace, comma or value spends at most two
units of fuel. -/
def read (text : List Char) : Except Refusal Value := do
  let (value, rest) ← readValue (2 * text.length + 2) text
  match skipGap rest with
  | [] => .ok value
  | _ => .error .trailingText

end RegisterMachine.Json
