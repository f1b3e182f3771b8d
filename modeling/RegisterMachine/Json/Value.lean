namespace RegisterMachine.Json

/-- A document as it was read. A number is kept as it is spelled. A string has no text if one of
its escapes names half of a surrogate pair without the other half. -/
inductive Value where
  | null
  | bool (value : Bool)
  | number (literal : List Char)
  | string (text : Option (List Char))
  | array (items : List Value)
  | object (members : List (Option (List Char) × Value))

/-- The number that a literal of digits alone spells; a sign, a fraction or an exponent makes it
something else. -/
def Value.natural? : Value → Option Nat
  | .number literal =>
    if literal.all Char.isDigit then some (Nat.ofDigitChars 10 literal 0) else none
  | _ => none

/-- A part of a string literal: a character, or a number given by an escape with four digits. -/
inductive Piece where
  | char (c : Char)
  | unit (code : Nat)
  deriving DecidableEq, Repr

/-- The text of a string literal. Two units that are the halves of a surrogate pair spell one
character; half a pair alone spells none. -/
def textOf : List Piece → Option (List Char)
  | [] => some []
  | .char c :: rest => (textOf rest).map (c :: ·)
  | .unit high :: .unit low :: rest =>
    if 0xD800 ≤ high ∧ high ≤ 0xDBFF then
      if 0xDC00 ≤ low ∧ low ≤ 0xDFFF then
        let code := 0x10000 + (high - 0xD800) * 0x400 + (low - 0xDC00)
        (textOf rest).map (Char.ofNat code :: ·)
      else none
    else if 0xDC00 ≤ high ∧ high ≤ 0xDFFF then none
    else (textOf (.unit low :: rest)).map (Char.ofNat high :: ·)
  | .unit code :: rest =>
    if 0xD800 ≤ code ∧ code ≤ 0xDFFF then none
    else (textOf rest).map (Char.ofNat code :: ·)

end RegisterMachine.Json
