namespace RegisterMachine.Json

/-- A character as it stands inside a string literal. Only the quote, the backslash and the
control characters below U+0020 are escaped. -/
def escape (c : Char) : List Char :=
  if c = '"' then ['\\', '"']
  else if c = '\\' then ['\\', '\\']
  else if c = '\n' then ['\\', 'n']
  else if c = '\r' then ['\\', 'r']
  else if c = '\t' then ['\\', 't']
  else if c.toNat = 0x08 then ['\\', 'b']
  else if c.toNat = 0x0C then ['\\', 'f']
  else if c.toNat < 0x20 then
    ['\\', 'u', '0', '0', Nat.digitChar (c.toNat / 16), Nat.digitChar (c.toNat % 16)]
  else [c]

/-- The string literal that denotes a text. -/
def quote (s : String) : String :=
  String.ofList ('"' :: s.toList.flatMap escape ++ ['"'])

def ofBool (b : Bool) : String :=
  if b then "true" else "false"

/-- An object on one line, without blanks, from its keys and the texts of their values. -/
def object (members : List (String × String)) : String :=
  "\x7b" ++ String.intercalate "," (members.map fun (key, value) => quote key ++ ":" ++ value) ++
    "\x7d"

/-- An array with each of its objects, and each member of an object, on a line of its own. -/
def objectLines (objects : List (List (String × String))) : String :=
  let member := fun ((key, value) : String × String) => "    " ++ quote key ++ ": " ++ value
  let block := fun (members : List (String × String)) =>
    "  \x7b\n" ++ String.intercalate ",\n" (members.map member) ++ "\n  \x7d"
  if objects.isEmpty then "[]"
  else "[\n" ++ String.intercalate ",\n" (objects.map block) ++ "\n]"

end RegisterMachine.Json
