import RegisterMachine.Json.Writer
import RegisterMachine.Text.Integer

namespace RegisterMachine

/-- How a session runs: the pause after each step in milliseconds, how many steps it may take,
and the character that starts a comment. -/
structure Settings where
  stepDelay : UInt64 := 0
  maxSteps : Option UInt64 := none
  commentMarker : Char := '#'
  deriving DecidableEq, Repr

namespace Settings

/-- The pause after a step in whole seconds and the nanoseconds beyond them. -/
def pause (settings : Settings) : Nat × Nat :=
  (settings.stepDelay.toNat / 1000, settings.stepDelay.toNat % 1000 * 1000000)

/-- Sets the pause to the whole milliseconds of a duration, as far as 64 bits hold them. -/
def withPause (settings : Settings) (seconds nanoseconds : Nat) : Settings :=
  { settings with
    stepDelay := UInt64.ofNat (min (seconds * 1000 + nanoseconds / 1000000) 0xFFFFFFFFFFFFFFFF) }

/-- The settings as a document, all fields in their fixed order. -/
def toJson (settings : Settings) : String :=
  let limit :=
    match settings.maxSteps with
    | none => "null"
    | some limit => Text.natural limit.toNat
  Json.object [
    ("step_delay_ms", Text.natural settings.stepDelay.toNat),
    ("max_steps", limit),
    ("comment_marker", Json.quote (String.ofList [settings.commentMarker]))]

end Settings

end RegisterMachine
