import VectorMotion.Trim.Mode

/-!
# Trimming states

While a scene is drawn, the trim in force decides how shapes are treated. The state is kept on a
stack of its own, apart from the one of the drawing.
-/

namespace VectorMotion.Render

/-- How the shapes that are drawn now are trimmed. -/
inductive Trimming where
  | off
  | simultaneous
  | individual
  deriving Repr, DecidableEq, Inhabited

namespace Trimming

/-- The state under a trim of some mode. -/
def ofMode : Trim.Mode → Trimming
  | .simultaneous => simultaneous
  | .individual => individual

/-- The name of a state in reports. -/
def name : Trimming → String
  | off => "Off"
  | simultaneous => "Simultaneous"
  | individual => "Individual"

end Trimming

/-- A state with the states that are saved, the last saved first. -/
structure TrimStack where
  current : Trimming := .off
  saved : List Trimming := []
  deriving Repr, DecidableEq, Inhabited

namespace TrimStack

/-- The stack in another state. -/
def set (stack : TrimStack) (state : Trimming) : TrimStack := { stack with current := state }

/-- Saves the state. -/
def save (stack : TrimStack) : TrimStack := { stack with saved := stack.current :: stack.saved }

/-- Goes back to the last saved state, if there is one. -/
def restore (stack : TrimStack) : TrimStack :=
  match stack.saved with
  | [] => stack
  | state :: saved => ⟨state, saved⟩

/-- How many states are saved. -/
def depth (stack : TrimStack) : Nat := stack.saved.length

end TrimStack

end VectorMotion.Render
