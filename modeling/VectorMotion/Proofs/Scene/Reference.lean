import Mathlib.Data.List.Forall2
import VectorMotion.Curve.ArcLength
import VectorMotion.Proofs.Scene.Numbering
import VectorMotion.Scalar.Floating
import VectorMotion.Scene

/-!
# What references mean while layers are filled

An expression on a layer is looked up by name among the layers as they are when the layer is filled:
all of them with their effects, those before it with their contents as well. The contents of a layer
come behind its effects but in front of the layers that follow, so a shape can bear the name by
which an effect on a later layer is meant. Whoever looks up the name then finds the shape, and no
slider on it.

What a reference means therefore depends on the place of a layer, but only in one way: it means what
it would mean among the layers and their effects alone, or nothing. It can only come to mean nothing
where a node among the contents in front bears one of the two names.
-/

namespace VectorMotion.Scene

open Json

variable {S P : Type}

/-- What has been authored for a slider. -/
def Kind.authored? : Kind S P → Option Value
  | slider content => some content.authored
  | _ => none

namespace Node

/-- What is read of the first of some nodes that bears a name. -/
def readFirst (name : String) (reading : Node S P → Option Value) (nodes : List (Node S P)) :
    Option Value :=
  (nodes.find? fun node => node.head.name == name).bind reading

/-- The first node of the name decides what is read. -/
theorem readFirst_cons (name : String) (reading : Node S P → Option Value) (node : Node S P)
    (rest : List (Node S P)) : readFirst name reading (node :: rest) =
      if node.head.name == name then reading node else readFirst name reading rest := by
  rw [readFirst, List.find?_cons]
  cases node.head.name == name <;> rfl

/-- Nodes of which nothing is read can be left out behind all others. -/
theorem readFirst_append (name : String) (reading : Node S P → Option Value)
    (nodes behind : List (Node S P)) (blank : ∀ node ∈ behind, reading node = none) :
    readFirst name reading (nodes ++ behind) = readFirst name reading nodes := by
  induction nodes with
  | nil =>
    rw [List.nil_append, readFirst]
    cases found : behind.find? fun node => node.head.name == name with
    | none => rfl
    | some node => exact blank node (List.mem_of_find?_eq_some found)
  | cons first rest inductionHypothesis =>
    rw [List.cons_append, readFirst_cons, readFirst_cons, inductionHypothesis]

/-- What has been authored for the first node with a name, if that is a slider. -/
def control? (name : String) (node : Node S P) : Option Value :=
  readFirst name (fun found => found.kind.authored?) node.listing

end Node

/-- A reference means the control with its second name on the first node with its first name. -/
theorem Expression.authored_listing (root : Node S P) (reference : Reference) :
    Expression.authored? root reference =
      Node.readFirst reference.effect (Node.control? reference.control) root.listing := by
  rw [Node.readFirst, ← Node.find_listing]
  refine Option.bind_congr fun effect _ => ?_
  rw [Node.control?, Node.readFirst, ← Node.find_listing]
  refine Option.bind_congr fun control _ => ?_
  cases control.kind <;> rfl

namespace Build

/-- The root is looked up in front of the layers, and is no control. -/
theorem root_authored (layers : List (Node S P)) (reference : Reference) :
    Expression.authored? (rootWith layers) reference =
      let found := layers.flatMap Node.listing
      if reference.effect = "" then
        if reference.control = "" then none
        else Node.readFirst reference.control (fun found => found.kind.authored?) found
      else Node.readFirst reference.effect (Node.control? reference.control) found := by
  have listing : (rootWith layers).listing = rootWith layers :: layers.flatMap Node.listing := by
    simp [Node.listing_parts, Node.parts, rootWith, Node.effects, Node.children]
  have named (name : String) : ((rootWith layers).head.name == name) = decide (name = "") := by
    rw [Bool.eq_iff_iff, beq_iff_eq, decide_eq_true_iff]
    exact eq_comm
  rw [Expression.authored_listing, listing, Node.readFirst_cons, named, Node.control?, listing,
    Node.readFirst_cons, named]
  simp only [decide_eq_true_eq]
  rfl

end Build

variable [Scalar S] [Scalar P] [Widen S P]

namespace Build

/-- One step of the second round: a layer without contents, its fragment, the root in which the
expressions of the fragment are looked up, and the number that comes next. -/
structure Stage (S P : Type) where
  ground : Node S P
  layer : Node S P
  fragment : Value
  next : Nat

/-- The layer with its contents, and the number that comes next. -/
def Stage.fill (workshop : Workshop S) (stage : Stage S P) : Node S P × Nat :=
  fillLayer workshop stage.layer (Expression.resolve stage.ground stage.fragment) stage.next

/-- The steps of the second round. -/
def stages (workshop : Workshop S) :
    List (Node S P) → List (Node S P × Value) → Nat → List (Stage S P)
  | _, [], _ => []
  | filled, (layer, fragment) :: rest, next =>
    let stage : Stage S P :=
      ⟨rootWith (filled ++ layer :: rest.map (·.1)), layer, fragment, next⟩
    stage :: stages workshop (filled ++ [(stage.fill workshop).1]) rest (stage.fill workshop).2

/-- The second round goes through its steps, one layer in each. -/
theorem fill_layers_stages (workshop : Workshop S) (heads : List (Node S P × Value))
    (filled : List (Node S P)) (next : Nat) :
    (fillLayers workshop filled heads next).1 = filled ++
        (stages workshop filled heads next).map (fun stage => (stage.fill workshop).1) ∧
      (stages workshop filled heads next).map (fun stage => (stage.layer, stage.fragment)) =
        heads := by
  induction heads generalizing filled next with
  | nil => simp [fillLayers, stages]
  | cons entry rest inductionHypothesis =>
    obtain ⟨layer, fragment⟩ := entry
    let stage : Stage S P :=
      ⟨rootWith (filled ++ layer :: rest.map (·.1)), layer, fragment, next⟩
    obtain ⟨layers, heads⟩ := inductionHypothesis (filled ++ [(stage.fill workshop).1])
      (stage.fill workshop).2
    constructor
    · rw [stages, List.map_cons, List.append_cons]
      exact layers
    · rw [stages, List.map_cons]
      exact congrArg _ heads

end Build

variable [Measure P]

namespace Node

/-- Everything below contents is itself contents. -/
theorem Fits.within {node : Node S P} (fits : node.Fits .content) :
    ∀ listed ∈ node.listing, listed.Fits .content := by
  induction node, fits using Fits.content_induction with
  | group head group children childrenFit inductionHypothesis =>
    exact forall_listing.mpr
      ⟨.group head group children childrenFit, by simp, inductionHypothesis⟩
  | plain head kind plain coherent =>
    exact forall_listing.mpr ⟨.plain head kind plain coherent, by simp, by simp⟩

/-- No slider stands among contents. -/
theorem Fits.not_authored {node : Node S P} (fits : node.Fits .content) :
    node.kind.authored? = none := by
  have place := fits.kind_place
  cases kind : node.kind <;> simp_all [Kind.place, Kind.authored?]

/-- Nor is there a control below contents. -/
theorem Fits.no_control {node : Node S P} (fits : node.Fits .content) (name : String) :
    node.control? name = none := by
  have nothing : readFirst name (fun found => found.kind.authored?) ([] ++ node.listing) = none :=
    readFirst_append name _ [] _ fun listed below => (fits.within listed below).not_authored
  exact nothing

end Node

/-- A layer with contents, and the same layer still without. -/
structure Furnished (bare full : Node S P) : Prop where
  head : full.head = bare.head
  layers : bare.kind.authored? = none ∧ full.kind.authored? = none
  effects : full.effects = bare.effects
  empty : bare.children = []
  contents : ∀ child ∈ full.children, child.Fits .content

namespace Furnished

variable {bare full : Node S P}

/-- A layer is looked up with its effects; its contents come behind them. -/
theorem listings (furnished : Furnished bare full) :
    bare.listing = bare :: bare.effects.flatMap Node.listing ∧
      full.listing = full :: (bare.effects.flatMap Node.listing ++
        full.children.flatMap Node.listing) := by
  constructor
  · simp [Node.listing_parts bare, Node.parts, furnished.empty]
  · simp [Node.listing_parts full, Node.parts, furnished.effects]

/-- Contents hide no control on their own layer, and add none. -/
theorem control (furnished : Furnished bare full) (name : String) :
    full.control? name = bare.control? name := by
  obtain ⟨bareListing, fullListing⟩ := furnished.listings
  have blank : ∀ listed ∈ full.children.flatMap Node.listing, listed.kind.authored? = none := by
    intro listed member
    obtain ⟨child, inside, below⟩ := List.mem_flatMap.mp member
    exact ((furnished.contents child inside).within listed below).not_authored
  rw [Node.control?, Node.control?, bareListing, fullListing, Node.readFirst_cons,
    Node.readFirst_cons, Node.readFirst_append _ _ _ _ blank, furnished.head, furnished.layers.1,
    furnished.layers.2]

/-- Every child of a furnished layer may stand in the contents of a layer. -/
theorem all_contents {bare full : List (Node S P)} (furnished : List.Forall₂ Furnished bare full) :
    ∀ layer ∈ full, ∀ child ∈ layer.children, child.Fits .content := by
  induction furnished with
  | nil => simp
  | cons first _ inductionHypothesis =>
    intro layer member
    rcases List.mem_cons.mp member with rfl | behind
    · exact first.contents
    · exact inductionHypothesis layer behind

end Furnished

/-- A second list of nodes that is the first one, but with some nodes put in, and with contents for
layers. -/
inductive Crowded (added : Node S P → Prop) : List (Node S P) → List (Node S P) → Prop where
  | nil : Crowded added [] []
  | kept {bare full : Node S P} {nodes crowd : List (Node S P)}
      (like : full = bare ∨ Furnished bare full) (behind : Crowded added nodes crowd) :
      Crowded added (bare :: nodes) (full :: crowd)
  | put {node : Node S P} {nodes crowd : List (Node S P)} (isAdded : added node)
      (behind : Crowded added nodes crowd) : Crowded added nodes (node :: crowd)

namespace Crowded

variable {added : Node S P → Prop} {nodes crowd : List (Node S P)}

/-- Two lists that have been added to are one list that has been added to. -/
theorem append {others more : List (Node S P)} (front : Crowded added nodes crowd)
    (behind : Crowded added others more) : Crowded added (nodes ++ others) (crowd ++ more) := by
  induction front with
  | nil => exact behind
  | kept like _ inductionHypothesis => exact .kept like inductionHypothesis
  | put isAdded _ inductionHypothesis => exact .put isAdded inductionHypothesis

/-- A list to which nothing has been added. -/
theorem refl (nodes : List (Node S P)) : Crowded added nodes nodes := by
  induction nodes with
  | nil => exact .nil
  | cons first rest inductionHypothesis => exact .kept (.inl rfl) inductionHypothesis

/-- Where no node was before, all the nodes have been added. -/
theorem of_added (crowd : List (Node S P)) (each : ∀ node ∈ crowd, added node) :
    Crowded added [] crowd := by
  induction crowd with
  | nil => exact .nil
  | cons first rest inductionHypothesis =>
    exact .put (each first List.mem_cons_self)
      (inductionHypothesis fun node member => each node (List.mem_cons_of_mem _ member))

/-- Layers are listed among the contents of those before them. -/
theorem of_furnished {bare full : List (Node S P)} (furnished : List.Forall₂ Furnished bare full)
    (each : ∀ layer ∈ full, ∀ child ∈ layer.children, ∀ node ∈ child.listing, added node) :
    Crowded added (bare.flatMap Node.listing) (full.flatMap Node.listing) := by
  induction furnished with
  | nil => exact .nil
  | @cons layer filled _ _ first _ inductionHypothesis =>
    have inside : ∀ node ∈ filled.children.flatMap Node.listing, added node := by
      intro node listed
      obtain ⟨child, member, below⟩ := List.mem_flatMap.mp listed
      exact each filled List.mem_cons_self child member node below
    have restListed := inductionHypothesis fun layer member =>
      each layer (List.mem_cons_of_mem _ member)
    rw [List.flatMap_cons, List.flatMap_cons, first.listings.1, first.listings.2]
    refine append (.kept (.inr first) ?_) restListed
    simpa using (refl (layer.effects.flatMap Node.listing)).append (of_added _ inside)

/-- With the crowd, what is read of the first node with a name is what is read of it without the
crowd, or nothing; and it is not nothing if no added node bears the name. This holds for whatever
can be read of no added node, and of a layer alike with its contents and without. -/
theorem read (crowded : Crowded added nodes crowd) (name : String)
    (reading : Node S P → Option Value)
    (ofLayer : ∀ bare full, Furnished bare full → reading full = reading bare)
    (ofAdded : ∀ node, added node → reading node = none) :
    let first := Node.readFirst name reading
    (∀ value, first crowd = some value → first nodes = some value) ∧
      ((∀ node, added node → node.name ≠ name) → first crowd = first nodes) := by
  intro first
  induction crowded with
  | nil => exact ⟨fun _ => id, fun _ => rfl⟩
  | @kept bare full nodes crowd like behind inductionHypothesis =>
    have head : full.head = bare.head := by
      rcases like with rfl | furnished
      · rfl
      · exact furnished.head
    have equal : reading full = reading bare := by
      rcases like with rfl | furnished
      · rfl
      · exact ofLayer bare full furnished
    simp only [first, Node.readFirst_cons, head, equal]
    cases bare.head.name == name with
    | true => exact ⟨fun _ => id, fun _ => rfl⟩
    | false => exact inductionHypothesis
  | @put node nodes crowd isAdded behind inductionHypothesis =>
    simp only [first, Node.readFirst_cons, ofAdded node isAdded]
    cases named : node.head.name == name with
    | true =>
      exact ⟨nofun, fun unnamed => absurd (eq_of_beq named) (unnamed node isAdded)⟩
    | false => exact inductionHypothesis

end Crowded

namespace Build

/-- A reference that means something among layers of which some have contents means the same among
the layers without contents, and the other way round if no contents bear its names. -/
theorem furnished_authored {bare full : List (Node S P)}
    (furnished : List.Forall₂ Furnished bare full) (reference : Reference) :
    (∀ value, Expression.authored? (rootWith full) reference = some value →
        Expression.authored? (rootWith bare) reference = some value) ∧
      ((∀ layer ∈ full, ∀ child ∈ layer.children, ∀ node ∈ child.listing,
          node.name ≠ reference.effect ∧
            (reference.effect = "" → node.name ≠ reference.control)) →
        Expression.authored? (rootWith full) reference =
          Expression.authored? (rootWith bare) reference) := by
  let added (node : Node S P) : Prop :=
    node.Fits .content ∧ ∃ layer ∈ full, ∃ child ∈ layer.children, node ∈ child.listing
  have contents := Furnished.all_contents furnished
  have crowded : Crowded added (bare.flatMap Node.listing) (full.flatMap Node.listing) :=
    .of_furnished furnished fun layer member child inside node below =>
      ⟨(contents layer member child inside).within node below, layer, member, child, inside, below⟩
  rw [root_authored, root_authored]
  by_cases unnamed : reference.effect = ""
  · by_cases noControl : reference.control = ""
    · simp [unnamed, noControl]
    · obtain ⟨same, clear⟩ := crowded.read reference.control (fun found => found.kind.authored?)
        (fun _ _ pair => pair.layers.2.trans pair.layers.1.symm)
        fun node isAdded => isAdded.1.not_authored
      simp only [if_pos unnamed, if_neg noControl]
      refine ⟨same, fun free => clear ?_⟩
      rintro node ⟨-, layer, member, child, inside, below⟩
      exact (free layer member child inside node below).2 unnamed
  · obtain ⟨same, clear⟩ := crowded.read reference.effect (Node.control? reference.control)
      (fun _ _ pair => pair.control reference.control)
      fun node isAdded => isAdded.1.no_control reference.control
    simp only [if_neg unnamed]
    refine ⟨same, fun free => clear ?_⟩
    rintro node ⟨-, layer, member, child, inside, below⟩
    exact (free layer member child inside node below).1

/-- A layer that has no contents yet. -/
theorem furnished_bare {layer : Node S P} (fits : layer.Fits .layer) (empty : layer.children = []) :
    Furnished layer layer := by
  have noSlider : layer.kind.authored? = none := by
    have place := fits.kind_place
    cases kind : layer.kind <;> simp_all [Kind.place, Kind.authored?]
  exact ⟨rfl, ⟨noSlider, noSlider⟩, rfl, empty, by simp [empty]⟩

/-- Filling a layer gives it contents. -/
theorem Stage.furnished (workshop : Workshop S) (stage : Stage S P)
    (fits : stage.layer.Fits .layer) (empty : stage.layer.children = []) :
    Furnished stage.layer (stage.fill workshop).1 := by
  obtain ⟨ground, layer, fragment, next⟩ := stage
  have bare := furnished_bare fits empty
  unfold Stage.fill fillLayer
  split
  · exact bare
  · rename_i authored _
    cases fits with
    | layer head content effects children effectsFit childrenFit =>
      refine ⟨rfl, ⟨rfl, rfl⟩, rfl, empty, fun child member => ?_⟩
      exact (contents_fit workshop.settings).2.2 authored.shapes next child
        ((mem_arranged ..).mp member)

/-- The expressions of every layer are looked up among all layers, of which some have contents. -/
theorem stages_grounds (workshop : Workshop S) (heads : List (Node S P × Value))
    (done filled : List (Node S P)) (next : Nat) (furnished : List.Forall₂ Furnished done filled)
    (headsFit : ∀ entry ∈ heads, entry.1.Fits .layer ∧ entry.1.children = []) :
    ∀ stage ∈ stages workshop filled heads next, ∃ full,
      stage.ground = rootWith full ∧
        List.Forall₂ Furnished (done ++ heads.map Prod.fst) full := by
  induction heads generalizing done filled next with
  | nil => simp [stages]
  | cons entry rest inductionHypothesis =>
    obtain ⟨layer, fragment⟩ := entry
    have bare :
        List.Forall₂ Furnished (layer :: rest.map Prod.fst) (layer :: rest.map Prod.fst) := by
      refine List.forall₂_same.mpr fun other member => ?_
      obtain ⟨entry, inside, rfl⟩ : ∃ entry ∈ (layer, fragment) :: rest, entry.1 = other :=
        List.mem_map.mp member
      exact furnished_bare (headsFit entry inside).1 (headsFit entry inside).2
    let current : Stage S P :=
      ⟨rootWith (filled ++ layer :: rest.map (·.1)), layer, fragment, next⟩
    intro stage member
    rw [stages] at member
    rcases List.mem_cons.mp member with rfl | behind
    · exact ⟨_, rfl, List.rel_append furnished bare⟩
    · obtain ⟨fits, empty⟩ := headsFit _ List.mem_cons_self
      have last : List.Forall₂ Furnished [layer] [(current.fill workshop).1] :=
        .cons (current.furnished workshop fits empty) .nil
      have more := List.rel_append furnished last
      obtain ⟨full, ground, pairs⟩ := inductionHypothesis _ _ _ more
        (fun entry inside => headsFit entry (List.mem_cons_of_mem _ inside)) stage behind
      exact ⟨full, ground, by simpa using pairs⟩

end Build

/-- The layers of a document are filled one after the other, each with what its references mean
where it is filled. There a reference can mean nothing else than among the bare layers with their
effects, and so nothing else than where any other layer is filled. It means just that, unless a node
among the contents that are there by then bears the first name, or the second while the first is
empty. -/
theorem references_settled (settings : Trim.Settings) (document : Document S) :
    let workshop : Workshop S := ⟨settings, document.assets⟩
    let heads := (Build.layerHeads workshop document.layers 1 : List (Node S P × Value) × Nat)
    let bare := Build.rootWith (heads.1.map Prod.fst)
    let stages := Build.stages workshop [] heads.1 heads.2
    (Tree.ofDocument settings document : Tree S P).root.children =
        Build.mattesFirst (stages.map fun stage => (stage.fill workshop).1).reverse ∧
      stages.map (fun stage => (stage.layer, stage.fragment)) = heads.1 ∧
      ∀ stage ∈ stages, ∀ reference : Reference,
        (∀ value, Expression.authored? stage.ground reference = some value →
          Expression.authored? bare reference = some value) ∧
        ((∀ layer ∈ stage.ground.children, ∀ child ∈ layer.children, ∀ node ∈ child.listing,
            node.name ≠ reference.effect ∧
              (reference.effect = "" → node.name ≠ reference.control)) →
          Expression.authored? stage.ground reference = Expression.authored? bare reference) := by
  intro workshop heads bare stages
  obtain ⟨layers, entries⟩ := Build.fill_layers_stages workshop heads.1 [] heads.2
  refine ⟨congrArg (fun filled : List (Node S P) => Build.mattesFirst filled.reverse) layers,
    entries, ?_⟩
  intro stage member reference
  have headsFit : ∀ entry ∈ heads.1, entry.1.Fits .layer ∧ entry.1.children = [] :=
    fun entry inside => ⟨Build.layer_heads_fit workshop document.layers 1 entry inside,
      (Build.layer_heads_numbered workshop document.layers 1).2 entry inside⟩
  obtain ⟨full, ground, furnished⟩ :=
    Build.stages_grounds workshop heads.1 [] [] heads.2 .nil headsFit stage member
  rw [ground]
  exact Build.furnished_authored furnished reference

/-- Two layers, each with a rectangle whose size is the value of one control. The control is on the
second layer; the first one has a group besides, with a name of its own. -/
def sharedControl (groupName : String) : Document Float32 :=
  let size : Json.Value :=
    .object [("k", .list [.natural 10, .natural 10]), ("x", .text "effect('Controls')('Size')")]
  let rectangle : Json.Value := .object [("s", size), ("ty", .text "rc")]
  let group : Json.Value := .object [("nm", .text groupName), ("ty", .text "gr")]
  let slider : Json.Value :=
    .object [("nm", .text "Size"), ("ty", .natural 0),
      ("v", .object [("k", .list [.natural 40, .natural 20])])]
  let controls : Json.Value :=
    .object [("ef", .list [slider]), ("nm", .text "Controls"), ("ty", .natural 5)]
  { frameRate := 30
    inPoint := 0
    outPoint := 60
    layers :=
      [.object [("op", .natural 60), ("shapes", .list [rectangle, group]), ("ty", .natural 4)],
        .object [("ef", .list [controls]), ("op", .natural 60), ("shapes", .list [rectangle]),
          ("ty", .natural 4)]] }

/-- The steps in which the two layers are filled. -/
def sharedStages (groupName : String) : List (Build.Stage Float32 Float) :=
  let heads := Build.layerHeads {} (sharedControl groupName).layers 1
  Build.stages {} [] heads.1 heads.2

/-- Where the group has another name than the effect, the rectangle on the second layer finds the
control behind it. -/
theorem control_behind_group :
    let heads : List (Node Float32 Float × Value) × Nat :=
      Build.layerHeads {} (sharedControl "Group").layers 1
    ∃ stage ∈ sharedStages "Group", stage.layer.id = 2 ∧
      Expression.authored? stage.ground ⟨"Controls", "Size"⟩ =
        Expression.authored? (Build.rootWith (heads.1.map Prod.fst)) ⟨"Controls", "Size"⟩ := by
  intro heads
  let stage := (sharedStages "Group").get ⟨1, by decide +kernel⟩
  have member : stage ∈ sharedStages "Group" := List.get_mem ..
  obtain ⟨-, -, meaning⟩ := references_settled (P := Float) {} (sharedControl "Group")
  exact ⟨stage, member, by decide +kernel, (meaning stage member ⟨"Controls", "Size"⟩).2
    (by decide +kernel)⟩

/-- Where the group on the first layer has the name of the effect, it is found in its place: what is
one reference to the same control means something on the first layer and nothing on the second. -/
theorem control_hidden_by_group :
    (sharedStages "Controls").map (fun stage =>
      (Expression.authored? stage.ground ⟨"Controls", "Size"⟩).isSome) = [true, false] ∧
    (sharedStages "Group").map (fun stage =>
      (Expression.authored? stage.ground ⟨"Controls", "Size"⟩).isSome) = [true, true] := by
  decide +kernel

end VectorMotion.Scene
