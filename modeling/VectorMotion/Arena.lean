import VectorMotion.Report

/-!
# Scenes in one list

A scene can be kept in one list of cells instead of a tree. A cell stands at the place that is the
number of its node, and refers to others by their places: to its parent, its effects and its
children. Cells are only ever added at the end, so that a place, once taken, keeps its node.

Nothing in the list prevents a cell from naming a place where there is none, from standing among the
children of two others, or from being its own descendant. Whoever follows the places therefore goes
no deeper than a bound, and gives up beyond it.

Building and bringing to a time go through the list step by step. A cell is added first and what is
below it afterwards, while its list of children grows; lists of children are put in another order
once they are complete; and while the children of a container are brought to a time, their list is
taken out of its cell and put back at the end.
-/

namespace VectorMotion.Scene

open Json

variable {S P : Type}

namespace Expression

/-- What an object with these members is replaced by, where references have these values. -/
def replacementBy? (authored? : Reference → Option Value) (members : List (String × Value)) :
    Option Value := do
  let text ← (← members.lookup "x").text?
  let reference ← Reference.ofText? text
  return marked (← authored? reference)

mutual
/-- A value with its expressions replaced, where references have these values. -/
def resolveBy (authored? : Reference → Option Value) : Value → Value
  | .atom value => .atom value
  | .list items => .list (resolveItemsBy authored? items)
  | .object members =>
    match replacementBy? authored? members with
    | some value => value
    | none => .object (resolveMembersBy authored? members)

/-- Items with their expressions replaced. -/
def resolveItemsBy (authored? : Reference → Option Value) : List Value → List Value
  | [] => []
  | item :: rest => resolveBy authored? item :: resolveItemsBy authored? rest

/-- Members with their expressions replaced. -/
def resolveMembersBy (authored? : Reference → Option Value) :
    List (String × Value) → List (String × Value)
  | [] => []
  | (name, value) :: rest =>
    (name, if name == effectsMember then value else resolveBy authored? value) ::
      resolveMembersBy authored? rest
end

end Expression

/-- Whether the node is a trim, which holds for the other children of its container. -/
def Kind.isTrim : Kind S P → Bool
  | trim _ => true
  | _ => false

/-- A node as it is kept in a list. -/
structure Cell (S P : Type) where
  name : String
  matchName : Option String := none
  hidden : Bool := false
  kind : Kind S P
  /-- The place of the node that this one belongs to. -/
  parent : Option Nat := none
  /-- The places of the effects of a layer. -/
  effects : List Nat := []
  /-- The places of the children in the order of drawing. -/
  children : List Nat := []
  deriving Repr, Inhabited

namespace Cell

/-- A cell for a node that has nothing below it yet. -/
def ofHead (head : Head) (kind : Kind S P) : Cell S P :=
  { name := head.name, matchName := head.matchName, hidden := head.hidden, kind }

/-- What the node carries if the cell stands at a place. -/
def head (id : Nat) (cell : Cell S P) : Head :=
  { id, name := cell.name, matchName := cell.matchName, hidden := cell.hidden }

/-- The cell with one more child, behind the others. -/
def push (child : Nat) (cell : Cell S P) : Cell S P :=
  { cell with children := cell.children ++ [child] }

/-- The cell with other children. -/
def withChildren (children : List Nat) (cell : Cell S P) : Cell S P := { cell with children }

/-- The cell with its kind changed. -/
def mapKind (change : Kind S P → Kind S P) (cell : Cell S P) : Cell S P :=
  { cell with kind := change cell.kind }

/-- The cell with these effects, if it is that of a layer. -/
def withEffects (effects : List Nat) (cell : Cell S P) : Cell S P :=
  match cell.kind with
  | .layer _ => { cell with effects }
  | _ => cell

end Cell

/-- The cells of a scene. -/
abbrev Arena (S P : Type) := List (Cell S P)

namespace Arena

/-! ## Cells -/

/-- Nothing but a root. -/
def root : Arena S P := [{ name := "", kind := .root }]

/-- One more cell that belongs to a parent without being among its children, and its place. -/
def attach (parent : Nat) (cell : Cell S P) (arena : Arena S P) : Arena S P × Nat :=
  (arena ++ [{ cell with parent := some parent }], arena.length)

/-- One more cell as the last child of a parent, and its place. -/
def append (parent : Nat) (cell : Cell S P) (arena : Arena S P) : Arena S P × Nat :=
  let (arena, id) := attach parent cell arena
  (arena.modify parent (Cell.push id), id)

/-- The children of the cell at a place. -/
def childrenAt (id : Nat) (arena : Arena S P) : List Nat := (arena[id]?.map Cell.children).getD []

/-- The effects of the cell at a place. -/
def effectsAt (id : Nat) (arena : Arena S P) : List Nat := (arena[id]?.map Cell.effects).getD []

/-! ## Following places -/

/-- The first place with a name from a place on. Effects are searched before children, and neither
once the name has been found. There is nothing to be found where no cell stands; beyond the bound
there is no answer. -/
def search (arena : Arena S P) (name : String) : Nat → Nat → Option (Option Nat)
  | 0, _ => none
  | bound + 1, id =>
    match arena[id]? with
    | none => some none
    | some cell =>
      if cell.name == name then some (some id)
      else do
        match ← cell.effects.findSomeM? (search arena name bound) with
        | some found => return some found
        | none => cell.children.findSomeM? (search arena name bound)

/-- The first place with a name from a place on. -/
def find? (arena : Arena S P) (name : String) (id : Nat) : Option Nat :=
  (search arena name arena.length id).join

/-- The authored value of the slider that a reference means. -/
def authored? (arena : Arena S P) (reference : Reference) : Option Value := do
  let effect ← find? arena reference.effect 0
  let control ← find? arena reference.control effect
  match (← arena[control]?).kind with
  | .slider slider => some slider.authored
  | _ => none

/-- The layers directly under the root. -/
def layers (arena : Arena S P) : List (LayerEntry S) :=
  (childrenAt 0 arena).filterMap fun id => do
    let cell ← arena[id]?
    return (cell.head id, ← cell.kind.layer?)

/-- The calls that draw the node at a place and what is below it. -/
def callsFrom (arena : Arena S P) : Nat → Nat → Option (List (Render.Call S P))
  | 0, _ => none
  | bound + 1, id =>
    match arena[id]? with
    | none => some []
    | some cell =>
      let below (ids : List Nat) : Option (List (Render.Call S P)) := do
        return (← ids.mapM (callsFrom arena bound)).flatten
      if cell.hidden then some []
      else
        match cell.kind with
        | .root => do return [.save] ++ (← below cell.children) ++ [.restore]
        | .layer content =>
          if content.active then do
            return Render.Call.layer (layers arena) (cell.head id) content (← below cell.effects)
              (← below cell.children)
          else some []
        | .group content => do
          return Render.Call.group (cell.head id) content (← below cell.children)
        | .effectGroup => below cell.children
        | other => some (Render.Call.leaf (cell.head id) other)

/-- The calls that draw the scene. -/
def calls (arena : Arena S P) : Option (List (Render.Call S P)) := callsFrom arena arena.length 0

/-- The lines of a report for the node at a place and for what is below it. -/
def linesFrom (arena : Arena S P) : Nat → Nat → Nat → Option (List String)
  | 0, _, _ => none
  | bound + 1, depth, id =>
    match arena[id]? with
    | none => some []
    | some cell => do
      let below ← (cell.effects ++ cell.children).mapM (linesFrom arena bound (depth + 1))
      return Report.nodeLine depth (cell.head id) cell.kind :: below.flatten

/-- The lines of a report for the nodes below the root. -/
def lines (arena : Arena S P) : Option (List String) := do
  return (← (childrenAt 0 arena).mapM (linesFrom arena arena.length 0)).flatten

variable [Scalar S] [Scalar P] [Widen S P] [Measure P]

/-! ## Building -/

/-- The children of a cell put in the order of drawing: reversed, then sorted so that transforms are
in front. -/
def arrange (id : Nat) (arena : Arena S P) : Arena S P :=
  let behind (child : Nat) : Bool := arena[child]?.all fun cell => !cell.kind.isTransform
  let sorted := (childrenAt id arena).reverse.mergeSort fun first second =>
    decide (behind first ≤ behind second)
  arena.modify id (Cell.withChildren sorted)

mutual
/-- One more shape under a parent, and its place, if it is accepted. -/
def addShape (settings : Trim.Settings) (parent : Nat) :
    Value → Arena S P → Arena S P × Option Nat
  | .object members, arena =>
    match Build.shapeHead settings (.object members) arena.length with
    | none => (arena, none)
    | some (head, .group group) =>
      let (arena, id) := append parent (Cell.ofHead head (.group group)) arena
      (arrange id (addItems settings id members arena), some id)
    | some (head, kind) =>
      let (arena, id) := append parent (Cell.ofHead head kind) arena
      (arena, some id)
  | _, arena => (arena, none)

/-- The items of a group with these members. -/
def addItems (settings : Trim.Settings) (parent : Nat) :
    List (String × Value) → Arena S P → Arena S P
  | [], arena => arena
  | (name, .list items) :: rest, arena =>
    if name == Build.itemsMember then addShapes settings parent items arena
    else addItems settings parent rest arena
  | _ :: rest, arena => addItems settings parent rest arena

/-- Some more shapes under a parent. -/
def addShapes (settings : Trim.Settings) (parent : Nat) : List Value → Arena S P → Arena S P
  | [], arena => arena
  | item :: rest, arena =>
    addShapes settings parent rest (addShape settings parent item arena).1
end

mutual
/-- One more effect that belongs to a parent, and its place, if it is of a known kind. The parts of
a group are its children; the effects of a layer are not. -/
def addEffect (nested : Bool) (parent : Nat) :
    Document.Effect → Arena S P → Arena S P × Option Nat
  | .mk code name matchName parts value, arena =>
    let authored := Document.Effect.mk code name matchName parts value
    match Build.effectKind authored with
    | none => (arena, none)
    | some kind =>
      let cell := Cell.ofHead (Build.effectHead authored arena.length) kind
      let (arena, id) := if nested then append parent cell arena else attach parent cell arena
      match kind with
      | .effectGroup => (addParts id parts arena, some id)
      | _ => (arena, some id)

/-- The parts of a group of effects. -/
def addParts (parent : Nat) : List Document.Effect → Arena S P → Arena S P
  | [], arena => arena
  | part :: rest, arena => addParts parent rest (addEffect true parent part arena).1
end

/-- The effects of a layer, and their places. -/
def addEffects (parent : Nat) : List Document.Effect → Arena S P → Arena S P × List Nat
  | [], arena => (arena, [])
  | authored :: rest, arena =>
    let (arena, first) := addEffect false parent authored arena
    let (arena, others) := addEffects parent rest arena
    (arena, first.toList ++ others)

/-- One more layer under a parent with its effects, still without contents, and its place. -/
def addLayer (workshop : Workshop S) (parent : Nat) (fragment : Value) (arena : Arena S P) :
    Option (Arena S P × Nat) := do
  let label ← read? Document.Label.decode fragment
  let authored ← read? Document.Layer.decode fragment
  let kind ← LayerKind.ofDocument workshop.assets authored
  let head := Head.ofLabel arena.length label
  let (arena, id) :=
    append parent (Cell.ofHead head (.layer (Layer.ofDocument kind authored))) arena
  let (arena, effects) :=
    addEffects id (authored.effects.filterMap (read? Document.Effect.decode)) arena
  return (arena.modify id (Cell.withEffects effects), id)

/-- The transform and the contents of a layer filled in from its fragment, if that can be read. -/
def fillLayer (workshop : Workshop S) (id : Nat) (fragment : Value) (arena : Arena S P) :
    Arena S P :=
  match read? Document.Layer.decode fragment with
  | none => arena
  | some authored =>
    let transform := Transform.ofDocument authored.transform
    let moved := arena.modify id (Cell.mapKind (Build.setTransform transform))
    arrange id (addShapes workshop.settings id authored.shapes moved)

/-- The first round: layers with their effects, and the place of each with its fragment. -/
def addLayers (workshop : Workshop S) :
    List Value → Arena S P → Arena S P × List (Nat × Value)
  | [], arena => (arena, [])
  | fragment :: rest, arena =>
    match addLayer workshop 0 fragment arena with
    | some (arena, id) =>
      let (arena, others) := addLayers workshop rest arena
      (arena, (id, fragment) :: others)
    | none => addLayers workshop rest arena

/-- The second round: contents, layer by layer, with what expressions mean by then. -/
def fillLayers (workshop : Workshop S) : List (Nat × Value) → Arena S P → Arena S P
  | [], arena => arena
  | (id, fragment) :: rest, arena =>
    let resolved := Expression.resolveBy (authored? arena) fragment
    fillLayers workshop rest (fillLayer workshop id resolved arena)

/-- Whether the cell at a place is a layer that clips the one after it. -/
def isMatteSource (arena : Arena S P) (id : Nat) : Bool :=
  ((arena[id]?).bind fun cell => cell.kind.layer?).any (·.matteSource)

/-- Places with those of matte sources moved one to the front, from an index on. -/
def swapMattes (arena : Arena S P) (ids : List Nat) (index : Nat) : List Nat :=
  if _inside : index < ids.length then
    if isMatteSource arena ids[index] then
      swapMattes arena ((ids.set (index - 1) ids[index]).set index ids[index - 1]) (index + 2)
    else swapMattes arena ids (index + 1)
  else ids
termination_by ids.length - index

/-- The layers put in the order of drawing: reversed, matte sources in front of what they clip. -/
def arrangeLayers (arena : Arena S P) : Arena S P :=
  arena.modify 0 (Cell.withChildren (swapMattes arena (childrenAt 0 arena).reverse 1))

/-- The cells of a document's scene, under the settings of the user. -/
def ofDocument (settings : Trim.Settings) (document : Document S) : Arena S P :=
  let workshop : Workshop S := ⟨settings, document.assets⟩
  let (arena, layers) := addLayers workshop document.layers root
  arrangeLayers (fillLayers workshop layers arena)

/-! ## Bringing to a time -/

/-- The kind of a container with the trim in force for its children. -/
def setTrim (trim : Option (Trim.Window S)) (ownsTrim : Bool) : Kind S P → Kind S P
  | .layer layer => .layer { layer with trim }
  | .group _ => .group { trim, ownsTrim }
  | other => other

/-- A child is looked at for its trim: a visible trim is brought to a time, and its window meets the
one in force. It fails where no cell stands. -/
def meetTrim (time : S) (state : Option (Trim.Window S) × Bool × Arena S P) (child : Nat) :
    Option (Option (Trim.Window S) × Bool × Arena S P) := do
  let (current, owns, arena) := state
  let cell ← arena[child]?
  match cell.kind with
  | .trim trim =>
    if cell.hidden then return (current, owns, arena)
    else
      let trim := trim.update time
      return (some (Trim.Window.meet current trim.window), true,
        arena.modify child (Cell.mapKind fun _ => .trim trim))
  | _ => return (current, owns, arena)

/-- A child that is no trim is brought to a time, by `update`. It fails where no cell stands. -/
def updateRest (update : Nat → S → Option (Trim.Window S) → Arena S P → Option (Arena S P))
    (time : S) (trim : Option (Trim.Window S)) (arena : Arena S P) (child : Nat) :
    Option (Arena S P) := do
  if (← arena[child]?).kind.isTrim then return arena else update child time trim arena

/-- Brings the children of a container to a time: first the trims, then all others, by `update`,
under the trim that they make. The list of children is taken out meanwhile. -/
def updateChildren (update : Nat → S → Option (Trim.Window S) → Arena S P → Option (Arena S P))
    (id : Nat) (time : S) (around : Option (Trim.Window S)) (arena : Arena S P) :
    Option (Option (Trim.Window S) × Bool × Arena S P) := do
  let children := childrenAt id arena
  let taken := arena.modify id (Cell.withChildren [])
  let (trim, owns, arena) ← children.foldlM (meetTrim time) (around, false, taken)
  let arena ← children.foldlM (updateRest update time trim) arena
  return (trim, owns, arena.modify id (Cell.withChildren children))

/-- Brings the node at a place to a time, under the trim in force around it, and what is below it.
It fails beyond the bound, and where a child is missing. -/
def updateFrom : Nat → Nat → S → Option (Trim.Window S) → Arena S P → Option (Arena S P)
  | 0, _, _, _, _ => none
  | bound + 1, id, time, around, arena =>
    match arena[id]? with
    | none => some arena
    | some cell =>
      if cell.hidden then some arena
      else
        match cell.kind with
        | .layer layer => do
          let inner := layer.localTime time
          let arena := arena.modify id
            (Cell.mapKind fun _ => .layer (layer.update time layer.trim))
          let arena ← (effectsAt id arena).foldlM (fun arena effect =>
            updateFrom bound effect inner none arena) arena
          let (trim, owns, arena) ← updateChildren (updateFrom bound) id inner none arena
          return arena.modify id (Cell.mapKind (setTrim trim owns))
        | .group _ => do
          let (trim, owns, arena) ← updateChildren (updateFrom bound) id time around arena
          return arena.modify id (Cell.mapKind (setTrim trim owns))
        | .root | .effectGroup => do
          let (_, _, arena) ← updateChildren (updateFrom bound) id time none arena
          return arena
        | kind => some (arena.modify id (Cell.mapKind fun _ => kind.updateLeaf time around))

/-- Brings the scene to a time. -/
def update (time : S) (arena : Arena S P) : Option (Arena S P) :=
  updateFrom arena.length 0 time none arena

end Arena

end VectorMotion.Scene
