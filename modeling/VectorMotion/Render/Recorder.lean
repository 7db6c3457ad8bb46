import VectorMotion.Render.Call

/-!
# Recordings

A drawing that draws nothing and writes down what it is told: the method and node of each call, the
trimming state in which it came, and the path of a shape. A recording also counts how deep the
saved states are nested.

A plain recording is that of a drawing which leaves out everything that need not be answered, and
which takes the transform of a parent for the layer's own.
-/

namespace VectorMotion.Render

open Scene

variable {S P : Type}

namespace Visit

/-- The name of a shape's kind. -/
def contourMethod : Contour S → String
  | .rectangle .. => "rect"
  | .ellipse .. => "ellipse"
  | .circle .. => "round"
  | .freeForm _ => "free_form"

/-- The name of what a drawing is told. -/
def method : Visit S P → String
  | layer => "layer"
  | picture _ => "image_layer"
  | group => "group"
  | transform _ => "transform"
  | parentTransform _ => "parent_transform"
  | groupTransform _ => "shape_transform"
  | shape content => contourMethod content.contour
  | fill _ => "fill"
  | gradient _ => "gradient_fill"
  | stroke _ => "stroke"
  | trim _ => "trim"
  | repeater _ => "repeater"
  | flood _ => "fill_effect"

/-- The path, of a visit to a shape. -/
def path? : Visit S P → Option (Path P)
  | shape content => some content.path
  | _ => none

end Visit

/-- A call as it is written down. Brackets have no node, so its name is empty. -/
structure Entry (P : Type) where
  method : String
  node : String
  trimming : Trimming
  path : Option (Path P) := none
  deriving Repr, Inhabited

/-- A recording. The trimming state and the depth are kept from one scene to the next. -/
structure Recording (P : Type) where
  entries : Array (Entry P) := #[]
  trimming : TrimStack := {}
  /-- How many states are saved. -/
  depth : Nat := 0
  /-- The greatest depth so far. -/
  maxDepth : Nat := 0
  deriving Repr, Inhabited

namespace Recording

/-- Writes down one call in the current trimming state. -/
def write (recording : Recording P) (method node : String) (path : Option (Path P)) :
    Recording P :=
  { recording with
    entries := recording.entries.push ⟨method, node, recording.trimming.current, path⟩ }

/-- Answers one call. -/
def answer (recording : Recording P) : Call S P → Recording P
  | .save =>
    let depth := recording.depth + 1
    write { recording with depth, maxDepth := max recording.maxDepth depth } "save" "" none
  | .restore => write { recording with depth := recording.depth - 1 } "restore" "" none
  | .saveTrimming => { recording with trimming := recording.trimming.save }
  | .restoreTrimming => { recording with trimming := recording.trimming.restore }
  | .setTrimming state => { recording with trimming := recording.trimming.set state }
  | .visit head visit => write recording visit.method head.name visit.path?

/-- The recording after some more calls. -/
def answerAll (recording : Recording P) (calls : List (Call S P)) : Recording P :=
  calls.foldl answer recording

/-- A recording of calls. -/
def ofCalls (calls : List (Call S P)) : Recording P := answerAll {} calls

end Recording

/-- What a plain recording writes down for a node: nothing for what need not be answered. -/
def Visit.plain? (head : Head) : Visit S P → Option (String × String)
  | picture _ | group | flood _ => none
  | parentTransform _ => some ("transform", head.name)
  | trim window => some ("trim", head.name ++ " <- " ++ window.name)
  | other => some (other.method, head.name)

namespace Recording

/-- Answers one call in a plain recording. -/
def answerPlain (recording : Recording P) : Call S P → Recording P
  | .visit head visit =>
    match visit.plain? head with
    | some (method, node) => write recording method node none
    | none => recording
  | call => answer recording call

/-- A plain recording of calls. -/
def plain (calls : List (Call S P)) : Recording P := calls.foldl answerPlain {}

end Recording

end VectorMotion.Render
