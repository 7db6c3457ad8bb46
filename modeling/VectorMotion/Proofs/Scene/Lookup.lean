import Mathlib.Data.List.Range
import VectorMotion.Geometry.Outline
import VectorMotion.Scene.Gradient

/-!
# Reading tables by index

The stops of a gradient are read from a flat table, and the path of a free-form shape from its list
of vertices. Here both are read by index, with reads that fail where there is no entry. No read does
fail, whatever the table and the number of colour stops that it is said to hold, and what is read is
what the scene works with.
-/

namespace VectorMotion

variable {S : Type} [Scalar S]

/-- Reading the entries of a list one after the other gives the list. -/
theorem read_in_order {α : Type} (entries : List α) (read : Nat → Option α)
    (each : ∀ index < entries.length, read index = entries[index]?) :
    (List.range entries.length).mapM read = some entries := by
  induction entries generalizing read with
  | nil => rfl
  | cons first rest inductionHypothesis =>
    have restRead := inductionHypothesis (read ∘ Nat.succ) fun index bound =>
      each (index + 1) (Nat.succ_lt_succ bound)
    have firstRead : read 0 = some first := each 0 (Nat.succ_pos _)
    rw [List.length_cons, List.range_succ_eq_map, List.mapM_cons, List.mapM_map, restRead,
      firstRead]
    rfl

namespace Scene.GradientStop

/-- The colour stop with an index: the four numbers from its place in the table on. -/
def colorStop? (table : List S) (index : Nat) : Option (RampStop S (Rgba S)) := do
  let offset ← table[4 * index]?
  let red ← table[4 * index + 1]?
  let green ← table[4 * index + 2]?
  let blue ← table[4 * index + 3]?
  return (offset, ⟨red, green, blue, 1⟩)

/-- The opacity stop with an index: the two numbers from its place behind the colour stops on. -/
def alphaStop? (table : List S) (start index : Nat) : Option (RampStop S S) := do
  let offset ← table[start + 2 * index]?
  let alpha ← table[start + 2 * index + 1]?
  return (offset, alpha)

/-- The place of an offset among the stops from an index on. -/
def placeFrom? {V : Type} (ramp : List (RampStop S V)) (offset : S) (index : Nat) :
    Option (RampPlace S V) := do
  if index + 1 < ramp.length then
    let low ← ramp[index]?
    let high ← ramp[index + 1]?
    if low.1 ≤ offset && offset ≤ high.1 then
      let range := high.1 - low.1
      return ⟨low.2, high.2, if range == 0 then 0 else (offset - low.1) / range⟩
    else placeFrom? ramp offset (index + 1)
  else
    let last ← ramp[ramp.length - 1]?
    return ⟨last.2, last.2, 0⟩
termination_by ramp.length - index

/-- The place of an offset on a ramp that has stops. -/
def placeOn? {V : Type} (ramp : List (RampStop S V)) (offset : S) : Option (RampPlace S V) := do
  let first ← ramp[0]?
  if offset ≤ first.1 then return ⟨first.2, (ramp[1]?.getD first).2, 0⟩
  else placeFrom? ramp offset 0

/-- The value of a ramp of colours; white where there is none. -/
def colorAt? (ramp : List (RampStop S (Rgba S))) (offset : S) : Option (Rgba S) :=
  if ramp.isEmpty then some ⟨1, 1, 1, 1⟩
  else (placeOn? ramp offset).map fun place => place.low.lerp place.high place.ratio

/-- The value of a ramp of opacities; opaque where there is none. -/
def alphaAt? (ramp : List (RampStop S S)) (offset : S) : Option S :=
  if ramp.isEmpty then some 1
  else (placeOn? ramp offset).map fun place => Blend.number place.low place.high place.ratio

/-- The stops that a table describes, read by index. -/
def expand? (table : List S) (count : Nat) : Option (List (GradientStop S)) := do
  let start := min (count * 4) table.length
  let colors ← (List.range (start / 4)).mapM (colorStop? table)
  let alphas ← (List.range ((table.length - start) / 2)).mapM (alphaStop? table start)
  if alphas.isEmpty then return colors.map fun (offset, color) => ⟨offset, color⟩
  else
    (mergedOffsets colors alphas).mapM fun offset => do
      let color ← colorAt? colors offset
      let alpha ← alphaAt? alphas offset
      return ⟨offset, { color with alpha }⟩

/-- The colour stops of a table are those with its indices, as many as it has fours of numbers. -/
theorem color_ramp_read (table : List S) :
    (colorRamp table).length = table.length / 4 ∧
      ∀ index < table.length / 4, colorStop? table index = (colorRamp table)[index]? := by
  fun_induction colorRamp table with
  | case1 offset red green blue rest inductionHypothesis =>
    obtain ⟨length, stops⟩ := inductionHypothesis
    refine ⟨by simp only [List.length_cons, length]; omega, fun index bound => ?_⟩
    cases index with
    | zero => rfl
    | succ index =>
      rw [List.getElem?_cons_succ, ← stops index (by simp at bound; omega)]
      rfl
  | case2 table short =>
    have few : table.length / 4 = 0 := by
      match table, short with
      | [], _ | [_], _ | [_, _], _ | [_, _, _], _ => simp
      | _ :: _ :: _ :: _ :: _, short => exact absurd rfl (short _ _ _ _ _)
    simp [few]

omit [Scalar S] in
/-- The opacity stops of a table, likewise. -/
theorem alpha_ramp_read (table : List S) :
    (alphaRamp table).length = table.length / 2 ∧
      ∀ index < table.length / 2, alphaStop? table 0 index = (alphaRamp table)[index]? := by
  fun_induction alphaRamp table with
  | case1 offset alpha rest inductionHypothesis =>
    obtain ⟨length, stops⟩ := inductionHypothesis
    refine ⟨by simp only [List.length_cons, length]; omega, fun index bound => ?_⟩
    cases index with
    | zero => rfl
    | succ index =>
      rw [List.getElem?_cons_succ, ← stops index (by simp at bound; omega)]
      simp only [alphaStop?, Nat.zero_add]
      rfl
  | case2 table short =>
    have few : table.length / 2 = 0 := by
      match table, short with
      | [], _ | [_], _ => simp
      | _ :: _ :: _, short => exact absurd rfl (short _ _ _)
    simp [few]

/-- The colour stops at the front of a table, read in place. -/
theorem colors_found (table : List S) (start : Nat) (within : start ≤ table.length) :
    (List.range (start / 4)).mapM (colorStop? table) = some (colorRamp (table.take start)) := by
  obtain ⟨length, stops⟩ := color_ramp_read (table.take start)
  rw [List.length_take_of_le within] at length stops
  rw [← length]
  refine read_in_order _ _ fun index bound => ?_
  rw [length] at bound
  rw [← stops index bound]
  have inFront (place : Nat) (near : place < start) : (table.take start)[place]? = table[place]? :=
    List.getElem?_take_of_lt near
  simp only [colorStop?]
  rw [inFront, inFront, inFront, inFront] <;> omega

omit [Scalar S] in
/-- The opacity stops behind them, read in place. -/
theorem alphas_found (table : List S) (start : Nat) :
    (List.range ((table.length - start) / 2)).mapM (alphaStop? table start) =
      some (alphaRamp (table.drop start)) := by
  obtain ⟨length, stops⟩ := alpha_ramp_read (table.drop start)
  rw [List.length_drop] at length stops
  rw [← length]
  refine read_in_order _ _ fun index bound => ?_
  rw [length] at bound
  rw [← stops index bound]
  simp only [alphaStop?, List.getElem?_drop, Nat.zero_add, Nat.add_assoc]

section Places

variable {V : Type} (ramp : List (RampStop S V)) (offset : S)

/-- From the stop with an index on, the reads find what lies behind it. -/
theorem place_from_found (index : Nat) (low : RampStop S V) (rest : List (RampStop S V))
    (standing : ramp.drop index = low :: rest) :
    placeFrom? ramp offset index = some (placeAfter offset low rest) := by
  have length : ramp.length - index = rest.length + 1 := by
    simpa using congrArg List.length standing
  have stop (shift : Nat) : ramp[index + shift]? = (low :: rest)[shift]? := by
    rw [← standing, List.getElem?_drop]
  induction rest generalizing index low with
  | nil =>
    have last : ramp[ramp.length - 1]? = some low := by
      rw [show ramp.length - 1 = index + 0 by simp at length; omega]
      exact stop 0
    rw [placeFrom?, if_neg (by simp at length; omega), last]
    rfl
  | cons high rest inductionHypothesis =>
    have lowRead : ramp[index]? = some low := stop 0
    have highRead : ramp[index + 1]? = some high := stop 1
    have behind : placeFrom? ramp offset (index + 1) = some (placeAfter offset high rest) := by
      refine inductionHypothesis (index + 1) high ?_ ?_ fun shift => ?_
      · rw [← List.drop_drop, standing, List.drop_one, List.tail_cons]
      · simp only [List.length_cons] at length
        omega
      · rw [Nat.add_assoc, Nat.add_comm 1]
        exact stop (shift + 1)
    rw [placeFrom?, if_pos (by simp at length; omega), lowRead, highRead, placeAfter]
    simp only [Option.bind_eq_bind, Option.bind_some, behind]
    split <;> rfl

/-- Looking up an offset on a ramp that has stops does not fail. -/
theorem place_found (filled : ramp.isEmpty = false) :
    ∃ place, placeOn? ramp offset = some place ∧ place? ramp offset = some place := by
  cases ramp with
  | nil => cases filled
  | cons first rest =>
    by_cases before : offset ≤ first.1
    · exact ⟨⟨first.2, (rest.headD first).2, 0⟩, by cases rest <;> simp [placeOn?, before],
        by simp [place?, before]⟩
    · have onward := place_from_found (first :: rest) offset 0 first rest rfl
      exact ⟨placeAfter offset first rest, by simp [placeOn?, before, onward],
        by simp [place?, before]⟩

end Places

/-- A ramp of colours is read at any offset without failing. -/
theorem color_found (ramp : List (RampStop S (Rgba S))) (offset : S) :
    colorAt? ramp offset = some (colorAt ramp offset) := by
  cases filled : ramp.isEmpty with
  | true =>
    rw [List.isEmpty_iff.mp filled]
    rfl
  | false =>
    obtain ⟨place, found, same⟩ := place_found ramp offset filled
    simp only [colorAt?, filled, found, colorAt, same]
    rfl

/-- A ramp of opacities is read at any offset without failing. -/
theorem alpha_found (ramp : List (RampStop S S)) (offset : S) :
    alphaAt? ramp offset = some (alphaAt ramp offset) := by
  cases filled : ramp.isEmpty with
  | true =>
    rw [List.isEmpty_iff.mp filled]
    rfl
  | false =>
    obtain ⟨place, found, same⟩ := place_found ramp offset filled
    simp only [alphaAt?, filled, found, alphaAt, same]
    rfl

/-- Reading the stops that a table describes does not fail. -/
theorem stops_found (table : List S) (count : Nat) :
    expand? table count = some (expand table count) := by
  have front : table.take (count * 4) = table.take (min (count * 4) table.length) := by
    rw [List.take_eq_take_iff]
    omega
  have back : table.drop (count * 4) = table.drop (min (count * 4) table.length) := by
    rcases Nat.le_total (count * 4) table.length with within | beyond
    · rw [Nat.min_eq_left within]
    · rw [Nat.min_eq_right beyond, List.drop_of_length_le beyond, List.drop_length]
  simp only [expand?, expand, colors_found table _ (Nat.min_le_right _ _), alphas_found,
    Option.bind_eq_bind, Option.bind_some, color_found, alpha_found, front, back]
  split
  · rfl
  · exact List.mapM_pure

end Scene.GradientStop

namespace Path

variable {P : Type} [Widen S P]

/-- The knot at a vertex. A tangent that is left out is zero. -/
def knot? (shape : Document.Vertices S) (index : Nat) : Option (Knot S) := do
  let point ← shape.points[index]?
  return ⟨point, shape.arriving[index]?.getD Vec2.zero, shape.leaving[index]?.getD Vec2.zero⟩

/-- The curve from one vertex to another. -/
def joined? (shape : Document.Vertices S) (start finish : Nat) : Option (PathElement P) := do
  let start ← knot? shape start
  let finish ← knot? shape finish
  return join start finish

/-- The path through the vertices of a free-form shape, read by index. -/
def freeForm? (shape : Document.Vertices S) : Option (Path P) := do
  if shape.points.isEmpty then return []
  else
    let first ← shape.points[0]?
    let last := shape.points.length - 1
    let curves ← (List.range last).mapM fun index => joined? shape index (index + 1)
    if shape.closed && 1 < shape.points.length then
      let back ← joined? shape last 0
      return .move first.toPoint :: curves ++ [back]
    else return .move first.toPoint :: curves

/-- The knots of a shape are those at its vertices. -/
theorem knots_read (shape : Document.Vertices S) (index : Nat) :
    (knots shape.points shape.arriving shape.leaving)[index]? = knot? shape index := by
  obtain ⟨closed, arriving, leaving, points⟩ := shape
  induction points generalizing arriving leaving index with
  | nil => rfl
  | cons point points inductionHypothesis =>
    cases index with
    | zero => cases arriving <;> cases leaving <;> rfl
    | succ index =>
      have next := inductionHypothesis index arriving.tail leaving.tail
      simpa [knots, knot?] using next

/-- A path has as many knots as points. -/
theorem knots_length (points arriving leaving : List (Vec2 S)) :
    (knots points arriving leaving).length = points.length := by
  induction points generalizing arriving leaving with
  | nil => rfl
  | cons point points inductionHypothesis => exact congrArg (· + 1) (inductionHypothesis _ _)

/-- A path through knots has one segment less than knots. -/
theorem through_length (start : Knot S) (rest : List (Knot S)) :
    (through start rest : Path P).length = rest.length := by
  induction rest generalizing start with
  | nil => rfl
  | cons next rest inductionHypothesis => exact congrArg (· + 1) (inductionHypothesis next)

/-- The curves through knots join each knot to the next one. -/
theorem through_read (start : Knot S) (rest : List (Knot S)) (index : Nat) :
    (through start rest : Path P)[index]? = do
      let first ← (start :: rest)[index]?
      let second ← (start :: rest)[index + 1]?
      return join first second := by
  induction rest generalizing start index with
  | nil => cases index <;> rfl
  | cons next rest inductionHypothesis =>
    cases index with
    | zero => rfl
    | succ index => exact inductionHypothesis next index

/-- Reading the vertices of a free-form shape does not fail. -/
theorem vertices_found (shape : Document.Vertices S) :
    freeForm? shape = some (freeForm shape : Path P) := by
  have read := knots_read shape
  cases filled : shape.points with
  | nil => simp [freeForm?, freeForm, filled, knots]
  | cons point points =>
    obtain ⟨first, rest, made, same⟩ : ∃ first rest,
        knots shape.points shape.arriving shape.leaving = first :: rest ∧ first.point = point := by
      rw [filled]
      exact ⟨_, _, rfl, rfl⟩
    have length : rest.length = points.length := by
      have both := knots_length shape.points shape.arriving shape.leaving
      rw [made, filled] at both
      exact Nat.succ.inj both
    rw [made] at read
    have joins (start finish : Nat) : (joined? shape start finish : Option (PathElement P)) = do
        let left ← (first :: rest)[start]?
        let right ← (first :: rest)[finish]?
        return join left right := by
      simp only [joined?, read]
    have curves : (List.range points.length).mapM
        (fun index => joined? shape index (index + 1)) = some (through first rest : Path P) := by
      rw [← length, ← through_length (P := P) first rest]
      exact read_in_order _ _ fun index _ => (joins _ _).trans (through_read first rest index).symm
    have start : shape.points[0]? = some point := by rw [filled]; rfl
    rw [freeForm?, freeForm, made, start]
    simp only [filled, List.isEmpty_cons, List.length_cons, Nat.add_sub_cancel, curves, same,
      Bool.false_eq_true, ↓reduceIte, Option.bind_eq_bind, Option.bind_some]
    cases ends : rest.getLast? with
    | none =>
      obtain rfl : points = [] := by
        rw [List.getLast?_eq_none_iff] at ends
        simpa [ends] using length.symm
      simp
    | some last =>
      obtain ⟨before, rfl⟩ := List.getLast?_eq_some_iff.mp ends
      have behind : points.length = before.length + 1 := by simpa using length.symm
      have back :
          (joined? shape points.length 0 : Option (PathElement P)) = some (join last first) := by
        rw [joins, behind, List.getElem?_cons_succ, List.getElem?_concat_length]
        rfl
      cases shape.closed <;> simp [behind ▸ back, behind]

end Path

end VectorMotion
