import RegisterMachine.Files
import RegisterMachine.Json.Reader
import RegisterMachine.Problem
import RegisterMachine.Settings.Basic

namespace RegisterMachine.Settings

/-- A field of the settings' document. -/
inductive Field where
  | stepDelay
  | maxSteps
  | commentMarker
  deriving DecidableEq, Repr

def Field.name : Field → String
  | .stepDelay => "step_delay_ms"
  | .maxSteps => "max_steps"
  | .commentMarker => "comment_marker"

/-- The fields in the order in which they are written. -/
def Field.all : List Field := [.stepDelay, .maxSteps, .commentMarker]

def Field.ofName? (name : List Char) : Option Field :=
  Field.all.find? fun field => field.name.toList == name

/-- Why a text does not hold settings. -/
inductive Refusal where
  | document (refusal : Json.Refusal)
  | notSettings
  | unreadableKey
  | repeatedField (field : Field)
  | invalidField (field : Field)
  | tooManyItems
  deriving DecidableEq, Repr

def Refusal.message : Refusal → String
  | .document refusal => refusal.message
  | .notSettings => "neither an object nor an array"
  | .unreadableKey => "a key has no text"
  | .repeatedField field => "field " ++ field.name ++ " is given twice"
  | .invalidField field => "field " ++ field.name ++ " has an invalid value"
  | .tooManyItems => "more items than fields"

/-- A whole number of 64 bits. -/
def count? (value : Json.Value) : Option UInt64 := do
  let n ← value.natural?
  if n ≤ 0xFFFFFFFFFFFFFFFF then some (UInt64.ofNat n) else none

/-- The settings with one field as a document gives it. -/
def set? (settings : Settings) (value : Json.Value) : Field → Option Settings
  | .stepDelay => (count? value).map fun delay => { settings with stepDelay := delay }
  | .maxSteps =>
    match value with
    | .null => some { settings with maxSteps := none }
    | value => (count? value).map fun limit => { settings with maxSteps := some limit }
  | .commentMarker =>
    match value with
    | .string (some [marker]) => some { settings with commentMarker := marker }
    | _ => none

/-- Reads the members of an object. Keys that name no field are skipped; a field is given at
most once. -/
def readMembers (seen : List Field) (settings : Settings) :
    List (Option (List Char) × Json.Value) → Except Refusal Settings
  | [] => .ok settings
  | (none, _) :: _ => .error .unreadableKey
  | (some key, value) :: rest =>
    match Field.ofName? key with
    | none => readMembers seen settings rest
    | some field =>
      if seen.contains field then .error (.repeatedField field)
      else
        match settings.set? value field with
        | none => .error (.invalidField field)
        | some settings => readMembers (field :: seen) settings rest

/-- Reads the items of an array as the given fields; fields without an item stay as they are. -/
def readItems (settings : Settings) : List Field → List Json.Value → Except Refusal Settings
  | _, [] => .ok settings
  | [], _ :: _ => .error .tooManyItems
  | field :: fields, value :: rest =>
    match settings.set? value field with
    | none => .error (.invalidField field)
    | some settings => readItems settings fields rest

/-- Reads settings from a document; what it does not give has its default. -/
def ofValue : Json.Value → Except Refusal Settings
  | .object members => readMembers [] {} members
  | .array items => readItems {} Field.all items
  | _ => .error .notSettings

/-- Whether a comment marker would be taken for a blank, a sigil or the colon of a label. -/
def clashes (marker : Char) : Bool :=
  Text.isBlank marker || marker == '*' || marker == '=' || marker == ':'

/-- Reads settings from a text, and refuses a comment marker that clashes. -/
def ofJson (text : String) : Except Fault Settings :=
  match (Json.read text.toList).mapError Refusal.document >>= ofValue with
  | .error refusal =>
    .error ((Problem.malformedSettings refusal.message).fault.raisedIn "config::from_json")
  | .ok settings =>
    if clashes settings.commentMarker then
      .error ((Problem.clashingMarker settings.commentMarker).fault.raisedIn "config::validate")
    else .ok settings

/-- Reads settings from a file. -/
def load (reader : Reader) (path : String) : Except Fault Settings :=
  reader.readFor "config::load" path >>= ofJson

end RegisterMachine.Settings
