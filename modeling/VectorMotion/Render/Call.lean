import VectorMotion.Render.Trimming
import VectorMotion.Scene.Tree

/-!
# Render calls

Drawing a scene is a list of calls, in the order in which a drawing has to answer them. Containers
are bracketed by saving and restoring the state of the drawing, so that what a container sets ends
with it; the trimming state has brackets of its own.

Hidden nodes and layers that are not shown give no calls. A layer begins with its effects, which
hold for all of it, and with the transforms of the layers it follows, outermost first. A trim that
treats all shapes of a container together comes behind them, once, and only from the container
that it stands in.
-/

namespace VectorMotion.Render

open Scene

variable {S P : Type}

/-- What a drawing is told about a node. -/
inductive Visit (S P : Type) where
  | layer
  | picture (picture : Picture S)
  | group
  | transform (transform : Transform S)
  /-- The transform of a layer that the current one follows. -/
  | parentTransform (transform : Transform S)
  | groupTransform (transform : GroupTransform S)
  | shape (shape : Shape S P)
  | fill (fill : Fill S)
  | gradient (gradient : GradientFill S)
  | stroke (stroke : Stroke S)
  /-- The window over all shapes of the container, behind the last of them. -/
  | trim (window : Trim.Window S)
  | repeater (repeater : Repeater S)
  | flood (flood : Flood S)
  deriving Repr, Inhabited

/-- One call. -/
inductive Call (S P : Type) where
  | save
  | restore
  | saveTrimming
  | restoreTrimming
  | setTrimming (state : Trimming)
  | visit (head : Head) (visit : Visit S P)
  deriving Repr, Inhabited

namespace Call

/-- The call that sets the trimming state for a trim, if there is one. -/
def enterTrim : Option (Trim.Window S) → List (Call S P)
  | some window => [setTrimming (Trimming.ofMode window.mode)]
  | none => []

/-- The call that carries out a trim of all shapes together, if there is one. -/
def applyTrim (head : Head) : Option (Trim.Window S) → List (Call S P)
  | some window => if window.simultaneous then [visit head (.trim window)] else []
  | none => []

/-- The call for a node that is no container. Trims and sliders are not drawn. -/
def leaf (head : Head) : Kind S P → List (Call S P)
  | .transform transform => [visit head (.groupTransform transform)]
  | .shape shape => [visit head (.shape shape)]
  | .fill fill => [visit head (.fill fill)]
  | .gradient gradient => [visit head (.gradient gradient)]
  | .stroke stroke => [visit head (.stroke stroke)]
  | .repeater repeater => [visit head (.repeater repeater)]
  | .flood flood => [visit head (.flood flood)]
  | _ => []

/-- The calls for the layers that a layer follows, outermost first. -/
def parents (layers : List (LayerEntry S)) (head : Head) (layer : Layer S) : List (Call S P) :=
  (Parenting.chain layers head layer).reverse.map fun (head, parent) =>
    visit head (.parentTransform parent.transform)

/-- What a layer shows. -/
def ofLayerKind : LayerKind S → Visit S P
  | .shapes => .layer
  | .picture picture => .picture picture

/-- A layer around the calls for its effects and its children. -/
def layer (layers : List (LayerEntry S)) (head : Head) (layer : Layer S)
    (effects children : List (Call S P)) : List (Call S P) :=
  if layer.active then
    [save] ++ effects ++ parents layers head layer ++
      [visit head (ofLayerKind layer.kind), visit head (.transform layer.transform),
        saveTrimming] ++
      enterTrim layer.trim ++ children ++ applyTrim head layer.trim ++ [restoreTrimming, restore]
  else []

/-- A group around the calls for its children. -/
def group (head : Head) (group : Scene.Group S) (children : List (Call S P)) : List (Call S P) :=
  [save, saveTrimming] ++ enterTrim group.trim ++ [visit head .group] ++ children ++
    (if group.ownsTrim then applyTrim head group.trim else []) ++ [restoreTrimming, restore]

mutual
/-- The calls for a node; `layers` are those that others may follow. -/
def ofNode (layers : List (LayerEntry S)) : Node S P → List (Call S P)
  | .mk head kind effects children =>
    if head.hidden then []
    else
      match kind with
      | .root => [save] ++ ofNodes layers children ++ [restore]
      | .layer content =>
        layer layers head content (ofNodes layers effects) (ofNodes layers children)
      | .group content => group head content (ofNodes layers children)
      | .effectGroup => ofNodes layers children
      | other => leaf head other

/-- The calls for some nodes. -/
def ofNodes (layers : List (LayerEntry S)) : List (Node S P) → List (Call S P)
  | [] => []
  | node :: rest => ofNode layers node ++ ofNodes layers rest
end

/-- The calls for a scene. -/
def ofRoot (root : Node S P) : List (Call S P) :=
  ofNode (Parenting.entries root.children) root

/-- The layer that a call begins to draw. -/
def layerDrawn? : Call S P → Option Nat
  | visit head .layer | visit head (.picture _) => some head.id
  | _ => none

/-- A tree that has been drawn: the parents of all its layers that are shown have been looked
up. -/
def settleDrawn [Scalar S] [Scalar P] [Widen S P] [Measure P] (tree : Tree S P) : Tree S P :=
  ((ofRoot tree.root).filterMap layerDrawn?).foldl (fun tree id =>
    match tree.at? id with
    | some placed => tree.settleChain placed.node
    | none => tree) tree

end Call

end VectorMotion.Render
