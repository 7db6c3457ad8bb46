import VectorMotion.Json.Decode
import VectorMotion.Trim.Mode

/-!
# Authored settings

The settings of a user as they are kept in JSON. A trim mode is written as its word, or as an
object with the word for its only name and `null` for the value. Text and values that are neither
are refused in different ways: in text, where a mode is due, nothing else can begin.
-/

namespace VectorMotion.Document

open Json

/-- Where settings are read from. -/
inductive Medium where
  | value
  | text
  deriving Repr, DecidableEq, Inhabited

namespace Medium

/-- The misfit of a source that is no mode. -/
def noMode : Medium → Source → Misfit
  | .text, .broken flaw => .fault flaw.whenNamed
  | .text, _ => .fault .malformed
  | .value, source => source.misfit "string or map"

/-- The misfit of an object without a member, or with more than one. -/
def notSingle : Medium → Misfit
  | .value => .outOfRange .map "map with a single key"
  | .text => .fault .malformed

end Medium

/-- The mode with a word. -/
def modeWithWord (word : String) : Decoded Trim.Mode :=
  match Trim.Mode.withWord? word with
  | some mode => .ok mode
  | none => .error (.unknownVariant word (Trim.Mode.all.map Trim.Mode.word))

/-- Reads a value that must be `null`. -/
def decodeUnit : Decoder Unit
  | .atom .null => .ok ()
  | source => .error (source.misfit "unit")

/-- Steps behind the only member of an object: the object must end here, even a comma is one
character too many. -/
def leaveOnly : Option Flaw → Decoded Unit
  | some ⟨.name, _⟩ => .error (.fault .malformed)
  | flaw => leave flaw

/-- Reads a trim mode. Text is read as far as it makes sense: the word is looked up before
anything behind it is seen. -/
def decodeMode (medium : Medium) : Decoder Trim.Mode
  | .atom (.text word) => modeWithWord word
  | .object origin members flaw => do
    origin.enter
    match medium, members with
    | .value, [(some word, item)] => do
      let mode ← modeWithWord word
      decodeUnit item
      return mode
    | .text, (word, item) :: rest => do
      let mode ← modeWithWord (← nameOf word)
      decodeUnit item
      if !rest.isEmpty then .error medium.notSingle
      leaveOnly flaw
      return mode
    | _, _ => do
      leave flaw
      .error medium.notSingle
  | source => .error (medium.noMode source)

/-- The fields of settings. -/
def settingsFields (medium : Medium) : List (Record.Field Trim.Settings) :=
  [.of "trim_mode" (Decoder.optional (decodeMode medium)) fun mode _ => { mode }]

/-- Reads settings. -/
def decodeSettings (medium : Medium) : Decoder Trim.Settings :=
  Record.decode "EngineConfig" {} (settingsFields medium)

end VectorMotion.Document
