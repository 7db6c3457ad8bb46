import VectorMotion.Decimal.Text
import VectorMotion.Render.Recorder
import VectorMotion.Scene

/-!
# Reports

The text that describes a scene at a time: the document, the nodes below the root with their kinds,
and the calls that draw the frame.
-/

namespace VectorMotion.Report

open Scene

variable {S P : Type} [Scalar S] [Scalar P] [Widen S P] [Measure P] [Written S]

/-- The word for a kind of outline. -/
def contourWord : Contour S → String
  | .rectangle .. => "Rect"
  | .ellipse .. => "Ellipse"
  | .circle .. => "Round"
  | .freeForm _ => "FreeForm"

/-- The word for a kind of node. -/
def kindWord : Kind S P → String
  | .root => "Root"
  | .layer _ => "Layer"
  | .group _ => "Group"
  | .transform _ => "ShapeTransform"
  | .shape shape => contourWord shape.contour
  | .fill _ => "Fill"
  | .gradient _ => "GradientFill"
  | .stroke _ => "Stroke"
  | .trim _ => "Trim"
  | .repeater _ => "Repeater"
  | .effectGroup => "EffectGroup"
  | .slider _ => "Slider"
  | .flood _ => "FillEffect"

/-- The first two lines: the document and the time. -/
def heading (scene : Scene S P) : List String :=
  let info := scene.info
  let name := info.name.getD "<unnamed>"
  let range := Written.text info.inPoint ++ ".." ++ Written.text info.outPoint
  [s!"{name} {info.width}x{info.height} @ " ++ Written.text info.frameRate ++
      " fps, frames " ++ range,
    "frame " ++ Written.text scene.frame]

/-- The line of a node. -/
def nodeLine (depth : Nat) (head : Head) (kind : Kind S P) : String :=
  String.ofList (List.replicate (2 * depth) ' ') ++ head.name ++ " [" ++ kindWord kind ++ "]" ++
    (if head.hidden then " hidden" else "")

mutual
/-- The lines of a node and of everything below it, each two blanks deeper than its parent. -/
def nodeLines (depth : Nat) : Node S P → List String
  | .mk head kind effects children =>
    nodeLine depth head kind ::
      (nodesLines (depth + 1) effects ++ nodesLines (depth + 1) children)

/-- The lines of some nodes. -/
def nodesLines (depth : Nat) : List (Node S P) → List String
  | [] => []
  | node :: rest => nodeLines depth node ++ nodesLines depth rest
end

/-- The line of a call. -/
def callLine (entry : Render.Entry P) : String :=
  "  " ++ entry.method ++ " " ++ entry.node ++ " " ++ entry.trimming.name

/-- The lines of the calls that draw a scene. -/
def callLines (scene : Scene S P) : List String :=
  (Render.Recording.ofCalls scene.calls).entries.toList.map callLine

/-- The report on a scene. -/
def text (scene : Scene S P) : String :=
  let lines :=
    heading scene ++ nodesLines 0 scene.tree.root.children ++ ["calls"] ++ callLines scene
  String.join (lines.map (· ++ "\n"))

end VectorMotion.Report
