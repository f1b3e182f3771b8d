namespace RegisterMachine.Text

/-- The characters with the Unicode property `White_Space`. -/
def isBlank (c : Char) : Bool :=
  let n := c.toNat
  (0x09 ≤ n && n ≤ 0x0D) || n == 0x20 || n == 0x85 || n == 0xA0 || n == 0x1680 ||
    (0x2000 ≤ n && n ≤ 0x200A) || n == 0x2028 || n == 0x2029 || n == 0x202F ||
    n == 0x205F || n == 0x3000

/-- Characters without the blanks at their end. -/
def dropTrailingBlanks (cs : List Char) : List Char :=
  (cs.reverse.dropWhile isBlank).reverse

/-- Characters without the blanks at both ends. -/
def trimBlanks (cs : List Char) : List Char :=
  dropTrailingBlanks (cs.dropWhile isBlank)

/-- The maximal runs of characters that are not blank, in order. -/
def runs (cs : List Char) : List (List Char) :=
  (cs.splitOnP isBlank).filter (fun run => !run.isEmpty)

/-- A text without the blanks at both ends. -/
def trim (s : String) : String :=
  String.ofList (trimBlanks s.toList)

/-- The words of a text: its maximal runs of characters that are not blank. -/
def words (s : String) : List String :=
  (runs s.toList).map String.ofList

theorem runs_nil : runs [] = [] := rfl

/-- A blank before a text changes none of its words. -/
theorem runs_cons_blank {c : Char} (h : isBlank c = true) (cs : List Char) :
    runs (c :: cs) = runs cs := by
  simp [runs, List.splitOnP_cons_eq_if_modifyHead, h]

/-- A text with `a` to `z` raised to capitals; letters outside ASCII keep their case. -/
def foldCase (s : String) : String :=
  String.ofList (s.toList.map Char.toUpper)

@[simp] theorem toList_foldCase (s : String) :
    (foldCase s).toList = s.toList.map Char.toUpper := by
  simp [foldCase]

/-- A character between single quotes, for messages. Blanks other than the space itself are
shown by their usual escape or by their code point. -/
def shown (c : Char) : String :=
  let inner :=
    if c = '\t' then "\\t"
    else if c = '\n' then "\\n"
    else if c = '\r' then "\\r"
    else if c ≠ ' ' ∧ isBlank c then
      "\\u\x7b" ++ String.ofList (Nat.toDigits 16 c.toNat) ++ "\x7d"
    else String.ofList [c]
  "'" ++ inner ++ "'"

/-- A text set flush right in a column; a wider text is kept whole. -/
def flushRight (width : Nat) (s : String) : String :=
  String.ofList (s.toList.leftpad width ' ')

/-- A text set flush left in a column; a wider text is kept whole. -/
def flushLeft (width : Nat) (s : String) : String :=
  String.ofList (s.toList.rightpad width ' ')

/-- A line without the carriage return at its end. -/
def dropReturn (line : List Char) : List Char :=
  if line.getLast? = some '\r' then line.dropLast else line

/-- Takes the line breaks out of pieces that they divide. The last piece has no break behind it:
it is kept as it is, or is no line at all if it is empty. -/
def closeLines : List (List Char) → List (List Char)
  | [] => []
  | [last] => if last.isEmpty then [] else [last]
  | line :: rest => dropReturn line :: closeLines rest

/-- The lines of a text. A line ends with a line feed, before which a carriage return may
stand. -/
def lines (s : String) : List String :=
  (closeLines (s.toList.splitOnP (· == '\n'))).map String.ofList

end RegisterMachine.Text
