import VectorMotion.Render.Call

/-!
# Drawings

What a frame looks like: painted outlines and images in the order in which they are painted, and
the gradients that they use. A canvas answers render calls and collects them.

Paints reach the canvas before the shapes that they cover. They are collected in the current state
and used for every shape that is drawn after them in the same container. A repeater turns each
shape into several, and a flood replaces the colour of every fill.

Shapes under a trim that treats them all together are not painted at once. They wait in a queue, in
the coordinates of the document and with the paints that held when they came, until the container
that owns the trim is at its end; then the window is measured over all shapes that the container
has queued, and what is left of each is painted. Shapes that follow each other in one look wait,
and are painted, as one outline.
-/

namespace VectorMotion.Render

open Scene

/-- How an outline is painted. -/
inductive Paint (S : Type) where
  | fill (color : Rgba S) (opacity : S) (rule : FillRule)
  /-- A fill with one of the drawing's gradients, which are numbered from zero. -/
  | gradient (index : Nat) (opacity : S) (rule : FillRule)
  | stroke (color : Rgba S) (opacity width : S) (cap : LineCap) (join : LineJoin)
      (miterLimit : S) (dashes : Option (DashPattern S))
  deriving Repr, BEq, Inhabited

/-- What is painted. -/
inductive Element (S P : Type) where
  /-- An outline with the map that places it. A `cover` takes the place of the colour of a
  fill. -/
  | outline (path : Path P) (placed : Affine P) (opacity : S) (paint : Paint S)
      (cover : Option (Rgba S))
  | picture (picture : Picture S) (placed : Affine P) (opacity : S)
  deriving Repr, BEq, Inhabited

/-- What holds for everything that is drawn until it is restored. -/
structure Brush (S P : Type) where
  placed : Affine P
  opacity : S
  /-- The paints for every shape, the first to be used first. -/
  paints : List (Paint S)
  /-- The copies that a repeater makes of every shape: the place and opacity of each. -/
  copies : Option (List (Affine P × S))
  /-- The colour of all fills. -/
  cover : Option (Rgba S)
  /-- How many shapes were waiting when the container began. -/
  mark : Nat
  deriving Repr, Inhabited

/-- A shape that waits for its trim, in the coordinates of the document. -/
structure Queued (S P : Type) where
  path : Path P
  opacity : S
  paints : List (Paint S)
  cover : Option (Rgba S)
  deriving Repr, Inhabited

/-- A drawing in progress. -/
structure Canvas (S P : Type) where
  brush : Brush S P
  /-- Saved brushes, the last saved first. -/
  saved : List (Brush S P)
  trimming : TrimStack
  /-- The gradients in the order of their numbers. -/
  gradients : List (GradientFill S)
  /-- What has been painted, in the order of painting. -/
  elements : List (Element S P)
  /-- The shapes that wait for a trim, in the order of drawing. -/
  queue : List (Queued S P)
  /-- An image whose place is not known yet. -/
  picture : Option (Picture S)
  deriving Repr, Inhabited

variable {S P : Type} [Scalar S] [Scalar P] [Widen S P] [Measure P]

namespace Paint

/-- The paint of a shape that is painted in the coordinates of the document, where lengths are
`factor` times as long. -/
def scaled (factor : S) : Paint S → Paint S
  | stroke color opacity width cap join miterLimit dashes =>
    stroke color opacity (width * factor) cap join miterLimit
      (dashes.map fun dashes =>
        ⟨dashes.lengths.map (· * factor), dashes.offset * factor⟩)
  | other => other

/-- The paint of a fill. -/
def ofFill (content : Fill S) : Paint S := fill content.color.value content.opacity content.rule

/-- The paint of a stroke. -/
def ofStroke (content : Stroke S) : Paint S :=
  stroke content.color.value content.opacity content.width.value content.cap content.join
    content.miterLimit content.dashPattern

end Paint

namespace Brush

/-- The brush that a drawing begins with. -/
def fresh : Brush S P :=
  { placed := Affine.identity, opacity := 1, paints := [], copies := none, cover := none,
    mark := 0 }

/-- The copies of a shape; without a repeater there is one, in its own place. -/
def instances (brush : Brush S P) : List (Affine P × S) :=
  brush.copies.getD [(Affine.identity, 1)]

/-- The brush within a transform. -/
def within (brush : Brush S P) (placed : Affine P) : Brush S P :=
  { brush with placed := brush.placed * placed }

/-- The brush with less opacity. -/
def faded (brush : Brush S P) (opacity : S) : Brush S P :=
  { brush with opacity := brush.opacity * opacity }

/-- The brush with one more paint. -/
def addPaint (brush : Brush S P) (paint : Paint S) : Brush S P :=
  { brush with paints := brush.paints ++ [paint] }

/-- The elements of a shape: every copy with every paint. -/
def paint (brush : Brush S P) (path : Path P) : List (Element S P) :=
  brush.instances.flatMap fun (place, opacity) =>
    brush.paints.map fun paint =>
      .outline path (brush.placed * place) (brush.opacity * opacity) paint brush.cover

/-- How much longer lengths are in the coordinates of the document than where a map places
them. -/
def lengthFactor (placed : Affine P) : S := narrow (Scalar.sqrt (Scalar.abs placed.determinant))

/-- The copies of a shape in the coordinates of the document, to be queued. -/
def queued (brush : Brush S P) (path : Path P) : List (Queued S P) :=
  brush.instances.map fun (place, opacity) =>
    let placed := brush.placed * place
    let factor := lengthFactor placed
    { path := path.place placed
      opacity := brush.opacity * opacity
      paints := brush.paints.map (Paint.scaled factor)
      cover := brush.cover }

end Brush

namespace Queued

/-- Whether two waiting shapes look the same. -/
def sameLook (a b : Queued S P) : Bool :=
  a.opacity == b.opacity && a.paints == b.paints && a.cover == b.cover

/-- The elements of what a trim has left of a shape. -/
def paint (shape : Queued S P) (left : Path P) : List (Element S P) :=
  if left.isEmpty then []
  else shape.paints.map fun paint =>
    .outline left Affine.identity shape.opacity paint shape.cover

/-- Puts a shape behind the others. It becomes a part of the last one if that has come after the
mark and looks the same. -/
def enqueue (mark : Nat) (queue : List (Queued S P)) (shape : Queued S P) : List (Queued S P) :=
  match queue.getLast? with
  | some last =>
    if mark < queue.length && sameLook last shape then
      queue.dropLast ++ [{ last with path := last.path ++ shape.path }]
    else queue ++ [shape]
  | none => queue ++ [shape]

end Queued

namespace Canvas

/-- An empty canvas. -/
def empty : Canvas S P :=
  { brush := Brush.fresh, saved := [], trimming := {}, gradients := [], elements := []
    queue := [], picture := none }

/-- The canvas with its brush changed. -/
def mapBrush (canvas : Canvas S P) (change : Brush S P → Brush S P) : Canvas S P :=
  { canvas with brush := change canvas.brush }

/-- Draws a shape: paints it, or puts it into the queue. -/
def draw (canvas : Canvas S P) (path : Path P) : Canvas S P :=
  if path.isEmpty then canvas
  else if canvas.trimming.current == .simultaneous then
    { canvas with
      queue := (canvas.brush.queued path).foldl (Queued.enqueue canvas.brush.mark) canvas.queue }
  else { canvas with elements := canvas.elements ++ canvas.brush.paint path }

/-- Paints an image whose place has become known. -/
def placePicture (canvas : Canvas S P) : Canvas S P :=
  match canvas.picture with
  | some picture =>
    { canvas with
      picture := none
      elements :=
        canvas.elements ++ [.picture picture canvas.brush.placed canvas.brush.opacity] }
  | none => canvas

/-- Trims the shapes that the container has queued and paints what is left of them. -/
def applyTrim (canvas : Canvas S P) (window : Trim.Window S) : Canvas S P :=
  let own := canvas.queue.drop canvas.brush.mark
  let left := window.cutTogether (own.map (·.path))
  { canvas with
    queue := canvas.queue.take canvas.brush.mark
    elements := canvas.elements ++ (List.zipWith Queued.paint own left).flatten }

/-- Answers what is told about a node. -/
def visit (canvas : Canvas S P) : Visit S P → Canvas S P
  | .layer | .group => canvas
  | .picture picture => { canvas with picture := some picture }
  | .transform transform =>
    (canvas.mapBrush fun brush =>
      (brush.within transform.map).faded transform.opacity).placePicture
  | .parentTransform transform => canvas.mapBrush fun brush => brush.within transform.map
  | .groupTransform group =>
    canvas.mapBrush fun brush => (brush.within group.map).faded group.transform.opacity
  | .shape shape => canvas.draw shape.path
  | .fill fill => canvas.mapBrush fun brush => brush.addPaint (Paint.ofFill fill)
  | .gradient gradient =>
    let paint := Paint.gradient canvas.gradients.length gradient.opacity gradient.rule
    { canvas.mapBrush fun brush => brush.addPaint paint with
      gradients := canvas.gradients ++ [gradient] }
  | .stroke stroke => canvas.mapBrush fun brush => brush.addPaint (Paint.ofStroke stroke)
  | .trim window => canvas.applyTrim window
  | .repeater repeater =>
    canvas.mapBrush fun brush => { brush with copies := some repeater.instances }
  | .flood flood => canvas.mapBrush fun brush => { brush with cover := some flood.cover }

/-- Answers one call. -/
def answer (canvas : Canvas S P) : Call S P → Canvas S P
  | .save =>
    { canvas with
      saved := canvas.brush :: canvas.saved
      brush := { canvas.brush with mark := canvas.queue.length } }
  | .restore =>
    match canvas.saved with
    | [] => canvas
    | brush :: saved => { canvas with brush, saved }
  | .saveTrimming => { canvas with trimming := canvas.trimming.save }
  | .restoreTrimming => { canvas with trimming := canvas.trimming.restore }
  | .setTrimming state => { canvas with trimming := canvas.trimming.set state }
  | .visit _ visit => canvas.visit visit

/-- The canvas after some calls. -/
def answerAll (canvas : Canvas S P) (calls : List (Call S P)) : Canvas S P :=
  calls.foldl answer canvas

/-- The drawing of calls. -/
def ofCalls (calls : List (Call S P)) : Canvas S P := answerAll empty calls

end Canvas

end VectorMotion.Render
