import VectorMotion.Proofs.Scalar.Exact
import VectorMotion.Proofs.Scene.Inheritance

/-!
# Trims gathered group by group

On the way down to a shape each visible trim that is met is taken into the window in force, one after
the other. Here it is shown that the grouping does not matter: with exact arithmetic, windows that are
taken for parts of each other compose like the maps of an interval into another one. So the trims of a
group can be merged among themselves, before it is known what is in force around the group. The window
of a whole outline changes nothing but the name.
-/

namespace VectorMotion.Trim.Window

/-! ## Windows as parts of each other -/

/-- A window in order, within the outline. -/
structure Proper (window : Window ℝ) : Prop where
  nonneg : 0 ≤ window.start
  ordered : window.start ≤ window.finish
  within : window.finish ≤ 100

/-- The window of a whole outline. -/
noncomputable def whole (name : String) (mode : Mode) : Window ℝ :=
  { name, start := 0, finish := 100, offset := 0, mode }

/-- Whether two windows show the same of every outline. -/
structure SameStretch (first second : Window ℝ) : Prop where
  start : first.start = second.start
  finish : first.finish = second.finish
  offset : first.offset = second.offset

/-- The exact part of a window, in the arithmetic of the reals. -/
theorem within_exact (window outer : Window ℝ) : window.within outer =
    { name := window.name ++ " & " ++ outer.name
      start := outer.start + window.start / (100 : ℝ) * (outer.finish - outer.start)
      finish := outer.start + window.finish / (100 : ℝ) * (outer.finish - outer.start)
      offset := window.offset + outer.offset
      mode := window.mode } := by
  rw [within, Exact.numeral_hundred]

/-- A part of a part is a part: it does not matter which windows are put together first. -/
theorem within_assoc (first second third : Window ℝ) :
    (first.within second).within third = first.within (second.within third) := by
  simp only [within_exact, mk.injEq]
  refine ⟨by simp only [String.append_assoc], ?_, ?_, add_assoc _ _ _, trivial⟩ <;> ring

/-- A part of the whole is what it is. -/
theorem within_whole (window : Window ℝ) (name : String) (mode : Mode) :
    window.within (whole name mode) = { window with name := window.name ++ " & " ++ name } := by
  simp only [within_exact, whole, mk.injEq]
  refine ⟨trivial, ?_, ?_, add_zero _, trivial⟩ <;> ring

/-- The whole of a window is the window, in the mode of the whole. -/
theorem whole_within (window : Window ℝ) (name : String) (mode : Mode) :
    (whole name mode).within window = { window with name := name ++ " & " ++ window.name, mode } := by
  simp only [within_exact, whole, mk.injEq]
  refine ⟨trivial, ?_, ?_, zero_add _, trivial⟩ <;> ring

/-- A share of a stretch lies in it. -/
theorem share_within {low high share : ℝ} (ordered : low ≤ high) (nonneg : 0 ≤ share)
    (most : share ≤ 100) :
    low ≤ low + share / 100 * (high - low) ∧ low + share / 100 * (high - low) ≤ high := by
  have length : 0 ≤ high - low := sub_nonneg.mpr ordered
  have part : share / 100 * (high - low) ≤ 1 * (high - low) :=
    mul_le_mul_of_nonneg_right (by linarith) length
  exact ⟨le_add_of_nonneg_right (by positivity), by linarith⟩

/-- A window in order is a part of another one in order that is in order and lies inside. -/
theorem Proper.inside {window outer : Window ℝ} (own : window.Proper) (around : outer.Proper) :
    (window.within outer).Proper ∧ outer.start ≤ (window.within outer).start ∧
      (window.within outer).finish ≤ outer.finish := by
  have length : 0 ≤ outer.finish - outer.start := sub_nonneg.mpr around.ordered
  obtain ⟨first, -⟩ := share_within around.ordered own.nonneg (own.ordered.trans own.within)
  obtain ⟨-, last⟩ := share_within around.ordered (own.nonneg.trans own.ordered) own.within
  have ordered : (window.within outer).start ≤ (window.within outer).finish := by
    simp only [within_exact]
    gcongr
    exact own.ordered
  rw [within_exact] at ordered ⊢
  exact ⟨⟨around.nonneg.trans first, ordered, last.trans around.within⟩, first, last⟩

/-! ## Windows that there may be -/

/-- The trim in force inside, of the one around and the one that is declared there; either may be
missing. -/
noncomputable def joined : Option (Window ℝ) → Option (Window ℝ) → Option (Window ℝ)
  | some around, some own => some (around.within own)
  | some around, none => some around
  | none, own => own

/-- An absent trim changes nothing of the trim around it. -/
theorem joined_none (around : Option (Window ℝ)) : joined around none = around := by
  cases around <;> rfl

/-- Three trims may be joined from the outside or from the inside. -/
theorem joined_assoc (first second third : Option (Window ℝ)) :
    joined (joined first second) third = joined first (joined second third) := by
  cases first <;> cases second <;> cases third <;> simp [joined, within_assoc]

/-- To meet a window is to be joined with it. -/
theorem joined_meet (around : Option (Window ℝ)) (window : Window ℝ) :
    joined around (some window) = some (meet around window) := by
  cases around <;> rfl

end VectorMotion.Trim.Window

namespace VectorMotion.Scene

open Trim Window

namespace Node

/-- Windows can be merged among themselves before they meet the one around them. -/
theorem meet_all_joined (around : Option (Window ℝ)) (windows : List (Window ℝ)) :
    meetAll around windows = joined around (meetAll none windows) := by
  induction windows generalizing around with
  | nil => exact (joined_none around).symm
  | cons window rest inductionHypothesis =>
    calc meetAll around (window :: rest)
        = meetAll (some (meet around window)) rest := rfl
      _ = joined (some (meet around window)) (meetAll none rest) := inductionHypothesis _
      _ = joined (joined around (some window)) (meetAll none rest) := by rw [joined_meet]
      _ = joined around (joined (some window) (meetAll none rest)) := joined_assoc _ _ _
      _ = joined around (meetAll none (window :: rest)) := by rw [← inductionHypothesis]; rfl

/-- So can the windows of each of several groups, one inside the other. -/
theorem meet_groups_joined (around : Option (Window ℝ)) (groups : List (List (Window ℝ))) :
    groups.foldl meetAll around =
      joined around ((groups.map (meetAll none)).foldr joined none) := by
  induction groups generalizing around with
  | nil => exact (joined_none around).symm
  | cons windows rest inductionHypothesis =>
    rw [List.foldl_cons, inductionHypothesis, meet_all_joined around windows, joined_assoc]
    rfl

/-- What containers make of their trims is what those further in make of theirs, joined with what is
in force around them. -/
theorem trim_through_joined {P : Type} (time : ℝ) (outer inner : List (Node ℝ P)) :
    trimThrough time (outer ++ inner) = joined (trimThrough time outer) (trimThrough time inner) := by
  simp only [trim_through_met, List.flatMap_append, ← meet_all_append]
  exact meet_all_joined _ _

end Node

variable {P : Type} [Scalar P] [Widen ℝ P] [Measure P]

/-- With exact arithmetic windows are put together as in a monoid, but for the name of the unit, and
windows in order give windows in order inside of the outer one. So it does not matter how the trims on
a way down the groups are put together: what is in force for a shape, and inside a group, when a scene is at
a frame is what the trims of the inner containers make when they are merged first, joined with what is
in force around those, wherever the way is parted. -/
theorem windows_compose :
    (∀ first second third : Window ℝ,
      (first.within second).within third = first.within (second.within third)) ∧
    (∀ (window : Window ℝ) (name : String) (mode : Mode),
      (window.within (whole name mode)).SameStretch window ∧
        ((whole name mode).within window).SameStretch window) ∧
    (∀ window outer : Window ℝ, window.Proper → outer.Proper →
      (window.within outer).Proper ∧ outer.start ≤ (window.within outer).start ∧
        (window.within outer).finish ≤ outer.finish) ∧
    (∀ (around : Option (Window ℝ)) (groups : List (List (Window ℝ))),
      groups.foldl Node.meetAll around =
        joined around ((groups.map (Node.meetAll none)).foldr joined none)) ∧
    ∀ (settings : Trim.Settings) (document : Document ℝ) (scene : Scene ℝ P),
      Reachable settings document scene → ∀ (frame : ℝ) (path : List (Node ℝ P)) (node : Node ℝ P),
        Node.Way (scene.update frame).tree.root path node →
        (∀ passed ∈ path ++ [node], passed.head.hidden = false) →
        (∀ shape, node.kind = .shape shape → ∃ root layerNode layer groups,
          path = root :: layerNode :: groups ∧ layerNode.kind = .layer layer ∧
          ∀ outer inner, outer ++ inner = layerNode :: groups →
            shape.trim = joined (Node.trimThrough (layer.localTime frame) outer)
              (Node.trimThrough (layer.localTime frame) inner)) ∧
        ∀ group, node.kind = .group group → ∃ root layerNode layer groups,
          path = root :: layerNode :: groups ∧ layerNode.kind = .layer layer ∧
          ∀ outer inner, outer ++ inner = layerNode :: groups ++ [node] →
            group.trim = joined (Node.trimThrough (layer.localTime frame) outer)
              (Node.trimThrough (layer.localTime frame) inner) := by
  refine ⟨within_assoc, fun window name mode => ?_, fun window outer own around => own.inside around,
    Node.meet_groups_joined, ?_⟩
  · rw [within_whole, whole_within]
    exact ⟨⟨rfl, rfl, rfl⟩, ⟨rfl, rfl, rfl⟩⟩
  · intro settings document scene reachable frame path node way shown
    have fits := (reachable.updated scene frame).fits
    have current : (scene.update frame).tree.root.AtTime frame none := Node.update_at_time _ _ _
    have nodeShown : node.head.hidden = false := shown node (by simp)
    have contents (isContent : node.kind.place = .content) :=
      way.contents_at_frame fits current (fun passed member =>
        shown passed (List.mem_append_left _ member)) isContent
    refine ⟨fun shape isShape => ?_, fun group isGroup => ?_⟩
    · obtain ⟨layerNode, layer, groups, through, isLayer, placed⟩ :=
        contents (by rw [isShape]; rfl)
      refine ⟨_, layerNode, layer, groups, through, isLayer, fun outer inner parted => ?_⟩
      rw [(Node.shape_at_time isShape nodeShown placed).1, ← parted, Node.trim_through_joined]
    · obtain ⟨layerNode, layer, groups, through, isLayer, placed⟩ :=
        contents (by rw [isGroup]; rfl)
      refine ⟨_, layerNode, layer, groups, through, isLayer, fun outer inner parted => ?_⟩
      rw [(Node.group_at_time isGroup nodeShown placed).1, ← Node.trim_through_inner,
        ← parted, Node.trim_through_joined]

noncomputable section Halved

/-- A rectangle in a group with a trim over the second half, on a layer with a trim from a fifth to
four fifths. -/
def halvedRectangle : Document ℝ :=
  let trim (name : String) (start finish : Nat) : Json.Value :=
    .object [("e", .object [("k", .natural finish)]), ("nm", .text name),
      ("s", .object [("k", .natural start)]), ("ty", .text "tm")]
  let group : Json.Value :=
    .object [("it", .list [.object [("ty", .text "rc")], trim "half" 50 100]), ("ty", .text "gr")]
  { frameRate := 30
    inPoint := 0
    outPoint := 60
    layers := [.object [("op", .natural 60), ("shapes", .list [group, trim "part" 20 80]),
      ("ty", .natural 4)]] }

/-- A trim between two percentages. -/
def between (name : String) (start finish : Nat) : TrimPath ℝ :=
  TrimPath.ofDocument {} name
    { start := { content := .fixed (Scalar.ofNat start) }
      finish := { content := .fixed (Scalar.ofNat finish) } }

/-- The scene of the rectangle at a frame. -/
theorem halved_root : ∃ layer group shape,
    ((Scene.ofDocument {} halvedRectangle : Scene ℝ ℝ).update 12).tree.root =
      Build.rootWith [.mk { id := 1, name := "" } (.layer layer) []
        [.mk { id := 5, name := "part" } (.trim (between "part" 20 80)) [] [],
          .mk { id := 2, name := "" } (.group group) []
            [.mk { id := 4, name := "half" } (.trim (between "half" 50 100)) [] [],
              .mk { id := 3, name := "" } (.shape shape) [] []]]] :=
  ⟨_, _, _, rfl⟩

/-- Such a trim has the same window at all times. -/
theorem between_window (name : String) (start finish : Nat) (time : ℝ) :
    (between name start finish).windowAt time =
      { name, start, finish, offset := 0, mode := Trim.Settings.modeOf {} 0 } := by
  have still (track : Track ℝ ℝ) (fixed : track.animated = false) :
      track.valueAt time = track.value := Track.value_at_fixed track fixed time
  rw [TrimPath.windowAt, still _ rfl, still _ rfl, still _ rfl, Window.mk.injEq]
  exact ⟨rfl, rfl, rfl, Exact.numeral_zero, rfl⟩

/-- From a fifth to four fifths of the second half is from three fifths to nine tenths, which is what
the rectangle is trimmed to. -/
theorem part_of_half :
    let part : Window ℝ :=
      { name := "part", start := 20, finish := 80, offset := 0, mode := .simultaneous }
    let half : Window ℝ := { part with name := "half", start := 50, finish := 100 }
    let scene : Scene ℝ ℝ := Scene.ofDocument {} halvedRectangle
    part.within half = { part with name := "part & half", start := 60, finish := 90 } ∧
      (part.within half).Proper ∧
      ∃ path node shape, Node.Way (scene.update 12).tree.root path node ∧
        node.kind = .shape shape ∧ ∃ window, shape.trim = some window ∧
          window.name = "part & half" ∧ window.start = 60 ∧ window.finish = 90 := by
  intro part half scene
  have ordered : part.Proper ∧ half.Proper := by
    constructor <;> constructor <;> norm_num [part, half]
  obtain ⟨-, -, parts, -, trims⟩ := @windows_compose ℝ _ _ _
  have share : part.within half = { part with name := "part & half", start := 60, finish := 90 } := by
    rw [within_exact]
    norm_num [part, half]
    rfl
  refine ⟨share, (parts part half ordered.1 ordered.2).1, ?_⟩
  obtain ⟨layer, group, shape, root⟩ := halved_root
  set inner : Node ℝ ℝ := .mk { id := 3, name := "" } (.shape shape) [] []
  set container : Node ℝ ℝ := .mk { id := 2, name := "" } (.group group) []
    [.mk { id := 4, name := "half" } (.trim (between "half" 50 100)) [] [], inner]
  set outer : Node ℝ ℝ := .mk { id := 1, name := "" } (.layer layer) []
    [.mk { id := 5, name := "part" } (.trim (between "part" 20 80)) [] [], container]
  have way : Node.Way (scene.update 12).tree.root [Build.rootWith [outer], outer, container]
      inner := by
    rw [root]
    exact .child _ _ _ _ (List.mem_singleton_self outer)
      (.child _ _ _ _ (by simp [outer, Node.children])
        (.child _ _ _ _ (by simp [container, Node.children]) (.here inner)))
  have shown : ∀ passed ∈ [Build.rootWith [outer], outer, container] ++ [inner],
      passed.head.hidden = false := by
    simp [Build.rootWith, outer, container, inner, Node.head]
  obtain ⟨held, -⟩ := trims {} halvedRectangle scene .loaded 12 _ inner way shown
  obtain ⟨top, layerNode, content, groups, same, isLayer, trim⟩ := held shape rfl
  obtain ⟨rfl, rfl, rfl⟩ :
      Build.rootWith [outer] = top ∧ outer = layerNode ∧ [container] = groups := by
    simpa using same
  have taken : shape.trim = some (((between "part" 20 80).windowAt (content.localTime 12)).within
      ((between "half" 50 100).windowAt (content.localTime 12))) := trim [outer] [container] rfl
  refine ⟨_, inner, shape, way, rfl, _, taken, ?_⟩
  simp only [between_window, within_exact]
  norm_num
  rfl

end Halved
end VectorMotion.Scene
