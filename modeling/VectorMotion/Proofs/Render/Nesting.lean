import VectorMotion.Proofs.Render.Recording

/-!
# Brackets in a drawing

A drawing saves two kinds of state, each on a stack of its own. Nodes open and close both kinds of
bracket, and skip both where they are hidden or not shown, so the calls of a node never close what
they have not opened, and close all that they have. This is shown once for the calls. What a
recording writes down follows along them: its saves and restores are well nested, and whatever a
layer or a group does to the trimming state is undone where it ends.

Nothing is assumed of the recording that a drawing begins with, nor of the tree that is drawn.
-/

namespace VectorMotion.Render

open Scene

variable {S P : Type}

namespace Call

/-- Calls in which every bracket of either kind is closed, in the reverse order of opening. -/
inductive Nested : List (Call S P) → Prop where
  | nothing : Nested []
  | visit (head : Head) (told : Visit S P) : Nested [visit head told]
  | sequence (first second : List (Call S P)) (firstNested : Nested first)
      (secondNested : Nested second) : Nested (first ++ second)
  | bracket (inside : List (Call S P)) (insideNested : Nested inside) :
      Nested ([save] ++ inside ++ [restore])
  | trimmed (trim : Option (Trim.Window S)) (inside : List (Call S P))
      (insideNested : Nested inside) : Nested (trimmed trim inside)

/-- What is told about nodes opens no bracket. -/
theorem Nested.of_visits {calls : List (Call S P)}
    (visits : ∀ call ∈ calls, ∃ head told, call = .visit head told) : Nested calls := by
  induction calls with
  | nil => exact .nothing
  | cons call rest inductionHypothesis =>
    obtain ⟨head, told, rfl⟩ := visits call List.mem_cons_self
    exact .sequence [_] rest (.visit head told)
      (inductionHypothesis fun other member => visits other (List.mem_cons_of_mem _ member))

/-- The calls of some nodes are nested if those of each are. -/
theorem Nested.flatMap {nodes : List (Node S P)} {calls : Node S P → List (Call S P)}
    (each : ∀ node ∈ nodes, Nested (calls node)) : Nested (nodes.flatMap calls) := by
  induction nodes with
  | nil => exact .nothing
  | cons first rest inductionHypothesis =>
    rw [List.flatMap_cons]
    exact .sequence _ _ (each first List.mem_cons_self)
      (inductionHypothesis fun node member => each node (List.mem_cons_of_mem _ member))

/-- Carrying out a trim opens no bracket. -/
theorem apply_trim_nested (head : Head) (trim : Option (Trim.Window S)) :
    Nested (applyTrim head trim : List (Call S P)) := by
  refine .of_visits ?_
  cases trim with
  | none => simp [applyTrim]
  | some window => cases together : window.simultaneous <;> simp [applyTrim, together]

/-- The calls of a node are nested, whatever it is and holds.

The induction follows the node. A layer or a group is a bracket around a bracket of the trimming
state, and a node that is not seen gives no calls, so that neither bracket is left open. -/
theorem node_nested (followed : List (LayerEntry S)) (node : Node S P) :
    Nested (ofNode followed node) := by
  induction node with
  | mk head kind effects children effectsNested childrenNested =>
    have ofEffects := Nested.flatMap effectsNested
    have ofChildren := Nested.flatMap childrenNested
    cases hidden : head.hidden with
    | true =>
      rw [of_hidden _ _ _ _ _ hidden]
      exact .nothing
    | false =>
      cases kind with
      | root =>
        rw [of_root _ _ _ _ hidden]
        exact .bracket _ ofChildren
      | group group =>
        rw [of_group _ _ _ _ _ hidden]
        have own : Nested (if group.ownsTrim then applyTrim head group.trim else []
            : List (Call S P)) := by
          split
          · exact apply_trim_nested head group.trim
          · exact .nothing
        exact .bracket _ (.trimmed group.trim _
          (.sequence _ _ (.sequence _ _ (.visit head .group) ofChildren) own))
      | layer layer =>
        cases active : layer.active with
        | false =>
          rw [of_unseen _ _ _ _ _ active]
          exact .nothing
        | true =>
          rw [of_layer _ _ _ _ _ hidden active]
          have parents : Nested (parents followed head layer : List (Call S P)) :=
            .of_visits fun call member => by
              obtain ⟨owner, told, same, -⟩ := parents_set followed head layer call member
              exact ⟨owner, told, same⟩
          have shown : Nested ([visit head (ofLayerKind layer.kind),
              visit head (.transform layer.transform)] : List (Call S P)) := .of_visits (by simp)
          have inside := Nested.sequence _ _ ofChildren (apply_trim_nested head layer.trim)
          exact .bracket _ (.sequence _ _ (.sequence _ _ (.sequence _ _ ofEffects parents) shown)
            (.trimmed layer.trim _ inside))
      | effectGroup =>
        rw [of_effect_group _ _ _ _ hidden]
        exact ofChildren
      | _ =>
        rw [of_leaf _ _ _ _ _ hidden rfl]
        exact .of_visits (by simp [leaf])

end Call

/-- Entries in which the saves and the restores are well nested: each save has its restore, both are
written down in one trimming state, and what is between them is well nested itself. -/
inductive Entry.Nested : List (Entry P) → Prop where
  | nothing : Nested []
  | single (entry : Entry P) (inside : entry.method ∉ ["save", "restore"]) : Nested [entry]
  | sequence (first second : List (Entry P)) (firstNested : Nested first)
      (secondNested : Nested second) : Nested (first ++ second)
  | bracket (state : Trimming) (inside : List (Entry P)) (insideNested : Nested inside) :
      Nested ([⟨"save", "", state, none⟩] ++ inside ++ [⟨"restore", "", state, none⟩])

/-- No node is visited with the method of a bracket. -/
theorem Visit.method_inside (told : Visit S P) : told.method ∉ ["save", "restore"] := by
  cases told with
  | shape shape => cases contour : shape.contour <;> simp [method, contour, contourMethod]
  | _ => simp [method]

namespace Recording

/-- A recording takes in two lists of calls as one, the first before the second. -/
theorem answerAll_append (recording : Recording P) (first second : List (Call S P)) :
    recording.answerAll (first ++ second) = (recording.answerAll first).answerAll second :=
  List.foldl_append ..

/-- What nested calls do to any recording: they add well nested entries, and leave the depth, the
trimming state and the saved trimming states as they were. -/
structure Extends (recording after : Recording P) : Prop where
  entries : ∃ added, Entry.Nested added ∧ after.entries.toList = recording.entries.toList ++ added
  depth : after.depth = recording.depth
  trimming : after.trimming = recording.trimming

/-- A recording that extends an extension extends the first one. -/
theorem Extends.trans {first second third : Recording P} (before : Extends first second)
    (behind : Extends second third) : Extends first third := by
  obtain ⟨added, nested, entries⟩ := before.entries
  obtain ⟨addedNext, nestedNext, entriesNext⟩ := behind.entries
  refine ⟨⟨added ++ addedNext, .sequence _ _ nested nestedNext, ?_⟩,
    behind.depth.trans before.depth, behind.trimming.trans before.trimming⟩
  rw [entriesNext, entries, List.append_assoc]

/-- A recording of nested calls.

The induction is on the calls. A restore comes in the trimming state of its save, because what is
between them has left that state as it was. -/
theorem nested_extends {calls : List (Call S P)} (nested : Call.Nested calls)
    (recording : Recording P) : Extends recording (recording.answerAll calls) := by
  induction nested generalizing recording with
  | nothing => exact ⟨⟨[], .nothing, by simp [answerAll]⟩, rfl, rfl⟩
  | visit head told =>
    refine ⟨⟨_, .single ⟨told.method, head.name, recording.trimming.current, told.path?⟩
      told.method_inside, ?_⟩, rfl, rfl⟩
    simp [answerAll, answer, write]
  | sequence first second firstNested secondNested firstExtends secondExtends =>
    rw [answerAll_append]
    exact (firstExtends recording).trans (secondExtends _)
  | bracket inside insideNested insideExtends =>
    obtain ⟨⟨added, nested, entries⟩, depth, trimming⟩ := insideExtends (recording.answer
      (.save : Call S P))
    have last : recording.answerAll ([.save] ++ inside ++ [.restore]) =
        ((recording.answer (.save : Call S P)).answerAll inside).answer (.restore : Call S P) := by
      simp [answerAll]
    rw [last]
    refine ⟨⟨_, .bracket recording.trimming.current added nested, ?_⟩, ?_, trimming⟩
    · have state : ((recording.answer (.save : Call S P)).answerAll inside).trimming.current =
          recording.trimming.current := congrArg TrimStack.current trimming
      simp only [answer, write, Array.toList_push] at entries state ⊢
      rw [entries, state]
      simp
    · change ((recording.answer (.save : Call S P)).answerAll inside).depth - 1 = recording.depth
      rw [depth]
      rfl
  | trimmed trim inside insideNested insideExtends =>
    let opened := recording.answerAll ([.saveTrimming] ++ Call.enterTrim trim : List (Call S P))
    have kept : opened.entries = recording.entries ∧ opened.depth = recording.depth ∧
        opened.trimming.restore = recording.trimming := by
      cases trim <;> exact ⟨rfl, rfl, rfl⟩
    obtain ⟨openedEntries, openedDepth, saved⟩ := kept
    obtain ⟨⟨added, nested, entries⟩, depth, trimming⟩ := insideExtends opened
    have last : recording.answerAll (Call.trimmed trim inside) =
        (opened.answerAll inside).answer (.restoreTrimming : Call S P) := by
      simp [opened, Call.trimmed, answerAll]
    rw [last]
    refine ⟨⟨added, nested, ?_⟩, depth.trans openedDepth, ?_⟩
    · rw [← openedEntries]
      exact entries
    · exact (congrArg TrimStack.restore trimming).trans saved

end Recording

/-- Drawing a scene at a frame into any recording adds entries in which saves and restores are well
nested, each restore in the trimming state of its save, and leaves the depth, the trimming state and
the saved trimming states as they were. The same trimming states are in force behind any node of a
scene as in front of it, so the trim of a layer or a group never reaches what comes behind it. -/
theorem drawing_nested [Scalar S] [Scalar P] [Widen S P] [Measure P] (scene : Scene S P) (frame : S)
    (before : Recording P) :
    let drawn := before.answerAll (scene.update frame).calls
    (∃ added, Entry.Nested added ∧ drawn.entries.toList = before.entries.toList ++ added) ∧
      drawn.depth = before.depth ∧
      drawn.trimming.current = before.trimming.current ∧
      drawn.trimming.saved = before.trimming.saved ∧
      ∀ (followed : List (LayerEntry S)) (node : Node S P) (reached : Recording P),
        (reached.answerAll (Call.ofNode followed node)).trimming = reached.trimming := by
  intro drawn
  have extended : before.Extends drawn := Recording.nested_extends (Call.node_nested _ _) before
  exact ⟨extended.entries, extended.depth, congrArg TrimStack.current extended.trimming,
    congrArg TrimStack.saved extended.trimming, fun followed node reached =>
      (Recording.nested_extends (Call.node_nested followed node) reached).trimming⟩

end VectorMotion.Render
