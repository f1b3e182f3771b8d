import RegisterMachine.Proofs.JsonText
import RegisterMachine.Settings.Reader

namespace RegisterMachine.Settings

/-- A comment marker that a line of a program may need otherwise: a blank, a sigil or the colon of
a label. -/
def Clashing (marker : Char) : Prop :=
  Text.isBlank marker = true ∨ marker = '*' ∨ marker = '=' ∨ marker = ':'

/-- The value that a document has for a limit. -/
def limitValue : Option UInt64 → Json.Value
  | none => .null
  | some limit => .number (Text.natural limit.toNat).toList

/-- The members of the settings' document, as they are read. -/
def documentMembers (settings : Settings) : List (Option (List Char) × Json.Value) :=
  [(some Field.stepDelay.name.toList, .number (Text.natural settings.stepDelay.toNat).toList),
    (some Field.maxSteps.name.toList, limitValue settings.maxSteps),
    (some Field.commentMarker.name.toList, .string (some [settings.commentMarker]))]

theorem clashes_iff {marker : Char} : clashes marker = true ↔ Clashing marker := by
  simp [clashes, Clashing, or_assoc]

/-- The document that is written for settings is a document, with just their members. -/
theorem read_toJson (settings : Settings) :
    Json.read settings.toJson.toList = .ok (.object settings.documentMembers) := by
  have hdelay := Json.reads_natural settings.stepDelay.toNat
  have hmarker := Json.reads_quote (String.ofList [settings.commentMarker])
  rw [String.toList_ofList] at hmarker
  refine Json.read_object (.cons ⟨rfl, hdelay⟩ (.cons ⟨rfl, ?_⟩ (.cons ⟨rfl, hmarker⟩ .nil)))
  cases settings.maxSteps with
  | none => exact Json.reads_null
  | some limit => exact Json.reads_natural limit.toNat

/-- Every word of 64 bits is a count, as it is written. -/
theorem count?_natural (n : UInt64) : count? (.number (Text.natural n.toNat).toList) = some n := by
  have hdigits : (Text.natural n.toNat).toList.all Char.isDigit = true :=
    List.all_eq_true.mpr fun _ => Text.isDigit_of_mem_natural
  have hvalue : Nat.ofDigitChars 10 (Text.natural n.toNat).toList 0 = n.toNat := by
    rw [Text.natural, String.toList_ofList, Nat.ofDigitChars_toDigits (by decide) (by decide)]
  have hword : n.toNat ≤ 0xFFFFFFFFFFFFFFFF := Nat.le_of_lt_succ n.toNat_lt
  simp only [count?, Json.Value.natural?, hdigits, if_true, hvalue, Option.bind_eq_bind,
    Option.bind_some, if_pos hword, UInt64.ofNat_toNat]

theorem set?_limitValue (settings : Settings) (limit : Option UInt64) :
    settings.set? (limitValue limit) .maxSteps = some { settings with maxSteps := limit } := by
  cases limit with
  | none => rfl
  | some limit => simp only [set?, limitValue, count?_natural, Option.map_some]

theorem ofValue_documentMembers (settings : Settings) :
    ofValue (.object settings.documentMembers) = .ok settings := by
  have hname : ∀ field : Field, Field.ofName? field.name.toList = some field := by
    intro field
    cases field <;> rfl
  have hdelay : set? {} (.number (Text.natural settings.stepDelay.toNat).toList) .stepDelay =
      some { stepDelay := settings.stepDelay } := by
    simp [set?, count?_natural]
  have hmarker : ∀ given : Settings, given.set? (.string (some [settings.commentMarker]))
      .commentMarker = some { given with commentMarker := settings.commentMarker } :=
    fun _ => rfl
  simp [ofValue, documentMembers, readMembers, hname, hdelay, set?_limitValue, hmarker]

theorem ofJson_toJson (settings : Settings) :
    ofJson settings.toJson =
      if clashes settings.commentMarker then
        .error ((Problem.clashingMarker settings.commentMarker).fault.raisedIn "config::validate")
      else .ok settings := by
  have hread : (Json.read settings.toJson.toList).mapError Refusal.document >>= ofValue =
      .ok settings := by
    rw [read_toJson]
    exact ofValue_documentMembers settings
  simp only [ofJson, hread]

/-- Settings are only read with a marker that does not clash. -/
theorem not_clashing_of_ofJson {text : String} {settings : Settings}
    (h : ofJson text = .ok settings) : ¬ Clashing settings.commentMarker := by
  rw [← clashes_iff]
  unfold ofJson at h
  split at h
  · cases h
  · split at h
    · cases h
    · rename_i hclashes
      cases h
      exact hclashes

/-- Settings that are written are read back, and the check of the comment marker is exact. The
document for settings is read as those settings, unless their marker clashes, which is reported as
invalid; and whatever text is read as settings, their marker does not clash, and their own document
is read as the same settings. -/
theorem settings_text_reads_back :
    (∀ settings : Settings, ¬ Clashing settings.commentMarker →
      ofJson settings.toJson = .ok settings) ∧
    (∀ settings : Settings, Clashing settings.commentMarker →
      ∃ fault, ofJson settings.toJson = .error fault ∧ fault.kind = .configInvalid) ∧
    ∀ text settings, ofJson text = .ok settings →
      ¬ Clashing settings.commentMarker ∧ ofJson settings.toJson = .ok settings := by
  have hback : ∀ settings : Settings, ¬ Clashing settings.commentMarker →
      ofJson settings.toJson = .ok settings := by
    intro settings hmarker
    rw [← clashes_iff] at hmarker
    rw [ofJson_toJson, if_neg hmarker]
  refine ⟨hback, ?_, ?_⟩
  · intro settings hmarker
    rw [ofJson_toJson, if_pos (clashes_iff.mpr hmarker)]
    exact ⟨_, rfl, rfl⟩
  · intro text settings htext
    have hmarker := not_clashing_of_ofJson htext
    exact ⟨hmarker, hback settings hmarker⟩

/-- The longest pause, a limit, and a marker that can only be written by its number. -/
def extreme : Settings where
  stepDelay := 0xFFFFFFFFFFFFFFFF
  maxSteps := some 0
  commentMarker := '\u0001'

theorem settings_text_reads_back_extreme :
    ¬ Clashing extreme.commentMarker ∧
      extreme.toJson = "\x7b\"step_delay_ms\":18446744073709551615,\"max_steps\":0," ++
        "\"comment_marker\":\"\\u0001\"\x7d" ∧
      ofJson extreme.toJson = .ok extreme ∧
      Clashing ':' ∧
      (∃ fault, ofJson (toJson { commentMarker := ':' }) = .error fault ∧
        fault.kind = .configInvalid) ∧
      ofJson "[7]" = .ok { stepDelay := 7 } ∧
      ofJson (toJson { stepDelay := 7 }) = .ok { stepDelay := 7 } := by
  obtain ⟨hback, hclash, htext⟩ := settings_text_reads_back
  have hextreme : ¬ Clashing extreme.commentMarker := by
    rw [← clashes_iff]
    decide
  have hcolon : Clashing ':' := clashes_iff.mp rfl
  have hitems : ofJson "[7]" = .ok { stepDelay := 7 } := by decide +kernel
  exact ⟨hextreme, by decide +kernel, hback extreme hextreme, hcolon,
    hclash { commentMarker := ':' } hcolon, hitems, (htext "[7]" _ hitems).2⟩

end RegisterMachine.Settings
