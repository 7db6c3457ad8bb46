import VectorMotion.Text.Blank

/-!
# Trim modes

How a trim treats the outlines it covers: all together, as if they were one, or each by itself.
Documents say it by a code and users by a word. A user's choice overrules every document's.
-/

namespace VectorMotion.Trim

/-- How a trim is applied to the outlines of its container. -/
inductive Mode where
  /-- The window is measured over all outlines laid end to end. -/
  | simultaneous
  /-- The window is measured over every outline by itself. -/
  | individual
  deriving Repr, DecidableEq, Inhabited

/-- A word that names no mode. -/
structure UnknownMode where
  word : String
  deriving Repr, DecidableEq

/-- What is said about a word that names no mode. -/
def UnknownMode.message (unknown : UnknownMode) : String :=
  s!"Unknown trim mode `{unknown.word}`, expected `simultaneous` or `individual`"

namespace Mode

/-- The mode that a document's code asks for. -/
def ofCode (code : Nat) : Mode := if code == 2 then .individual else .simultaneous

/-- The word for a mode. -/
def word : Mode → String
  | .simultaneous => "simultaneous"
  | .individual => "individual"

/-- All modes. -/
def all : List Mode := [.simultaneous, .individual]

/-- The mode with a word. -/
def withWord? (word : String) : Option Mode := all.find? (·.word == word)

/-- The mode that a user's word asks for. Blanks around it and the case of ASCII letters do not
count. -/
def ofWord (word : String) : Except UnknownMode Mode :=
  match withWord? (String.ofList ((Text.strip word.toList).map Char.toLower)) with
  | some mode => .ok mode
  | none => .error ⟨word⟩

end Mode

/-- What a user may set for all documents. -/
structure Settings where
  /-- The mode of every trim, whatever its document says. -/
  mode : Option Mode := none
  deriving Repr, DecidableEq, Inhabited

namespace Settings

/-- Settings from the environment. A word that names no mode is passed over. -/
def ofEnvironment (setting? : Option String) : Settings :=
  ⟨setting?.bind fun word => (Mode.ofWord word).toOption⟩

/-- Settings with another mode, if one is given. -/
def withMode (settings : Settings) (mode : Option Mode) : Settings :=
  match mode with
  | some mode => ⟨some mode⟩
  | none => settings

/-- The mode of a trim with a code. -/
def modeOf (settings : Settings) (code : Nat) : Mode := settings.mode.getD (Mode.ofCode code)

end Settings

end VectorMotion.Trim
