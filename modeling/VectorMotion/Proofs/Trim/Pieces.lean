import VectorMotion.Proofs.Scalar.Exact
import VectorMotion.Trim.Cut

/-!
# Pieces of outlines

What a trim keeps of an outline are pieces of its segments, drawn one after the other. Which pieces
they are and how they are drawn are two things: the pieces follow from lengths alone, and a piece is
drawn with a move in front of it unless it continues the one before it. The cut of an outline is
taken apart into the two here.

In exact arithmetic only differences of lengths count. So it is the same to lay outlines end to end
and to measure each of them from its own beginning, and the window of fractions is told by its two
ends in order. How segments are measured is left open.
-/

namespace VectorMotion.Trim

section Drawing

variable {P : Type} [Scalar P] [Measure P]

/-- Pieces, each with its subpath, drawn one after the other. A piece that continues on its subpath
is drawn from where the one before it has ended. -/
def drawn : Cursor P → List (Nat × Segment P) → Path P
  | _, [] => []
  | cursor, (subpath, piece) :: rest =>
    (if continues cursor subpath piece.start then [] else [.move piece.start]) ++
      piece.element :: drawn (some (subpath, piece.finish)) rest

/-- Where the last of some pieces has ended. -/
def cursorAfter : Cursor P → List (Nat × Segment P) → Cursor P
  | cursor, [] => cursor
  | _, (subpath, piece) :: rest => cursorAfter (some (subpath, piece.finish)) rest

/-- The pieces of measured segments between two lengths; `covered` is the length in front of the
first segment. -/
def pieces (low high : P) : P → List (Measured P) → List (Nat × Segment P)
  | _, [] => []
  | covered, measured :: rest =>
    let reached := covered + measured.length
    ((piece? measured covered reached low high).map (measured.subpath, ·)).toList ++
      pieces low high reached rest

omit [Measure P] in
/-- Pieces are drawn by drawing the first of them and then the others from where these end. -/
theorem drawn_append (cursor : Cursor P) (front back : List (Nat × Segment P)) :
    drawn cursor (front ++ back) = drawn cursor front ++ drawn (cursorAfter cursor front) back := by
  induction front generalizing cursor with
  | nil => rfl
  | cons first rest inductionHypothesis =>
    simp only [List.cons_append, drawn, cursorAfter, inductionHypothesis, List.append_assoc]

omit [Scalar P] [Measure P] in
/-- The cursor stands on the subpath of a piece, or where it has been. -/
theorem cursor_after (cursor : Cursor P) (list : List (Nat × Segment P)) :
    cursorAfter cursor list = cursor ∨
      ∃ piece ∈ list, cursorAfter cursor list = some (piece.1, piece.2.finish) := by
  induction list generalizing cursor with
  | nil => exact .inl rfl
  | cons first rest inductionHypothesis =>
    right
    rcases inductionHypothesis (some (first.1, first.2.finish)) with same | ⟨piece, member, same⟩
    · exact ⟨first, List.mem_cons_self, same⟩
    · exact ⟨piece, List.mem_cons_of_mem _ member, same⟩

/-- Cutting draws the pieces. -/
theorem cut_span_drawn (low high covered : P) (cursor : Cursor P) (segments : List (Measured P)) :
    cutSpan low high covered cursor segments =
      (drawn cursor (pieces low high covered segments),
        cursorAfter cursor (pieces low high covered segments)) := by
  induction segments generalizing covered cursor with
  | nil => rfl
  | cons measured rest inductionHypothesis =>
    rw [cutSpan, pieces]
    cases piece? measured covered (covered + measured.length) low high with
    | none => simp [inductionHypothesis]
    | some piece => simp [inductionHypothesis, drawn, cursorAfter]

/-- Cutting spans draws the pieces of one span after those of the other. -/
theorem cut_spans_drawn (spans : List (P × P)) (cursor : Cursor P) (segments : List (Measured P)) :
    cutSpans spans cursor segments =
      drawn cursor (spans.flatMap fun (low, high) => pieces low high 0 segments) := by
  induction spans generalizing cursor with
  | nil => rfl
  | cons span spans inductionHypothesis =>
    rw [cutSpans, cut_span_drawn, List.flatMap_cons, drawn_append, ← inductionHypothesis]

end Drawing

section Exactly

/-- A millionth is negligible. -/
theorem negligible_exact : (negligible : ℝ) = 1 / 10 ^ 6 := by
  show ((1 : ℕ) : ℝ) / 10 ^ 6 = 1 / 10 ^ 6
  rw [Nat.cast_one]

/-- What is negligible is more than nothing. -/
theorem negligible_pos : (0 : ℝ) < negligible := by
  rw [negligible_exact]
  positivity

/-- The exact length of segments is the sum of theirs. -/
theorem total_length (segments : List (Measured ℝ)) :
    totalLength segments = (segments.map Measured.length).sum := by
  have fold (sum : ℝ) : segments.foldl (fun sum measured => sum + measured.length) sum =
      sum + (segments.map Measured.length).sum := by
    induction segments generalizing sum with
    | nil => simp
    | cons measured rest inductionHypothesis =>
      rw [List.foldl_cons, inductionHypothesis, List.map_cons, List.sum_cons, add_assoc]
  have whole := fold 0
  rw [zero_add] at whole
  rw [← whole, totalLength, Exact.numeral_zero]

/-- The total length is that of the first segment and of the others. -/
theorem total_cons (measured : Measured ℝ) (rest : List (Measured ℝ)) :
    totalLength (measured :: rest) = measured.length + totalLength rest := by
  rw [total_length, total_length, List.map_cons, List.sum_cons]

/-- The nearest fraction between none and the whole. -/
noncomputable def fraction (x : ℝ) : ℝ := max 0 (min x 1)

/-- Where a window of fractions begins. -/
noncomputable def lower (start finish : ℝ) : ℝ := min (fraction start) (fraction finish)

/-- Where a window of fractions ends. -/
noncomputable def upper (start finish : ℝ) : ℝ := max (fraction start) (fraction finish)

/-- Clamping to the range from zero to one gives a fraction. -/
theorem clamp_fraction (x : ℝ) : Scalar.clamp x 0 1 = fraction x := by
  unfold Scalar.clamp fraction
  split
  case isTrue below => rw [min_eq_left (by linarith), max_eq_left below.le]
  case isFalse notBelow =>
    split
    case isTrue above => rw [min_eq_right above.le, max_eq_right zero_le_one]
    case isFalse notAbove =>
      rw [min_eq_left (not_lt.mp notAbove), max_eq_right (not_lt.mp notBelow)]

/-- An exact remainder that is made positive is what is behind the point. -/
theorem wrap_exact (x : ℝ) : Scalar.wrap x 1 = Int.fract x := by
  rw [Exact.wrapped x one_pos, div_one, mul_one]

/-- The spans of an exact window, of which the offset counts modulo one. -/
theorem spans_exact (start finish offset total : ℝ) :
    spans start finish offset total =
      if Int.fract (start + offset) + (finish - start) ≤ 1 then
        [(Int.fract (start + offset) * total,
          (Int.fract (start + offset) + (finish - start)) * total)]
      else
        [(Int.fract (start + offset) * total, total),
          (0, (Int.fract (start + offset) + (finish - start) - 1) * total)] := by
  simp only [spans, Exact.numeral_zero, Exact.numeral_one, wrap_exact]

variable [Measure ℝ]

/-- Only differences of lengths count. -/
theorem piece_shift (measured : Measured ℝ) (start finish low high shift : ℝ) :
    piece? measured (start - shift) (finish - shift) (low - shift) (high - shift) =
      piece? measured start finish low high := by
  simp only [piece?, sub_le_sub_iff_right, sub_lt_sub_iff_right, sub_sub_sub_cancel_right]

/-- Pieces do not depend on where lengths are counted from. -/
theorem pieces_shift (low high covered shift : ℝ) (segments : List (Measured ℝ)) :
    pieces (low - shift) (high - shift) (covered - shift) segments =
      pieces low high covered segments := by
  induction segments generalizing covered with
  | nil => rfl
  | cons measured rest inductionHypothesis =>
    have reached : covered - shift + measured.length = covered + measured.length - shift := by ring
    rw [pieces, pieces, reached, piece_shift, inductionHypothesis]

/-- The pieces of segments are those of the first of them, and then those of the others behind their
length. -/
theorem pieces_append (low high covered : ℝ) (front back : List (Measured ℝ)) :
    pieces low high covered (front ++ back) =
      pieces low high covered front ++ pieces low high (covered + totalLength front) back := by
  induction front generalizing covered with
  | nil => simp [pieces, total_length]
  | cons measured rest inductionHypothesis =>
    rw [List.cons_append, pieces, pieces, inductionHypothesis, total_cons, add_assoc,
      List.append_assoc]

/-- The first of some outlines keeps its pieces of the whole length. -/
theorem cut_all_cons (spans : List (ℝ × ℝ)) (base : ℝ) (segments : List (Measured ℝ))
    (rest : List (List (Measured ℝ))) :
    cutAll spans base (segments :: rest) =
      drawn none (spans.flatMap fun (low, high) => pieces low high base segments) ::
        cutAll spans (base + totalLength segments) rest := by
  have own : cutSpans (spans.map fun (low, high) => (low - base, high - base)) none segments =
      drawn none (spans.flatMap fun (low, high) => pieces low high base segments) := by
    rw [cut_spans_drawn, List.flatMap_map, Exact.numeral_zero]
    refine congrArg (drawn none) (congrArg (spans.flatMap ·) (funext fun span => ?_))
    have shifted := pieces_shift span.1 span.2 base base segments
    rwa [sub_self] at shifted
  rw [cutAll, own]

/-- Outlines that are laid end to end keep their own pieces of the whole length. -/
theorem cut_all_drawn (spans : List (ℝ × ℝ)) (base : ℝ) (measured : List (List (Measured ℝ))) :
    cutAll spans base measured = (List.range measured.length).map fun index =>
      drawn none (spans.flatMap fun (low, high) =>
        pieces low high (base + ((measured.take index).map totalLength).sum)
          (measured.getD index [])) := by
  induction measured generalizing base with
  | nil => rfl
  | cons segments rest inductionHypothesis =>
    rw [cut_all_cons, inductionHypothesis, List.length_cons, List.range_succ_eq_map, List.map_cons,
      List.map_map]
    simp [Function.comp_def, add_assoc]

/-- The length of outlines that are laid end to end. -/
noncomputable def combined (outlines : List (Path ℝ)) : ℝ :=
  (outlines.map fun outline => totalLength (measure outline)).sum

/-- The cut of outlines by an exact window of fractions, told by its ends in order. -/
theorem paths_exact (outlines : List (Path ℝ)) (start finish offset : ℝ) :
    paths outlines start finish offset =
      if upper start finish - lower start finish < negligible then outlines.map fun _ => []
      else if lower start finish ≤ 0 ∧ 1 ≤ upper start finish then outlines
      else if combined outlines ≤ negligible then outlines.map fun _ => []
      else cutAll (spans (lower start finish) (upper start finish) offset (combined outlines)) 0
        (outlines.map measure) := by
  have ends : (if fraction finish < fraction start then (fraction finish, fraction start)
      else (fraction start, fraction finish)) = (lower start finish, upper start finish) := by
    unfold lower upper
    split
    case isTrue swapped => rw [min_eq_right swapped.le, max_eq_left swapped.le]
    case isFalse inOrder => rw [min_eq_left (not_lt.mp inOrder), max_eq_right (not_lt.mp inOrder)]
  have width : |upper start finish - lower start finish| =
      upper start finish - lower start finish :=
    abs_of_nonneg (sub_nonneg.mpr min_le_max)
  have total : (outlines.map measure).foldl (fun sum segments => sum + totalLength segments) 0 =
      combined outlines := by
    rw [combined, List.sum_eq_foldl, List.foldl_map, List.foldl_map]
  unfold paths
  simp only [Exact.numeral_zero, Exact.numeral_one, clamp_fraction]
  rw [ends]
  simp only [total]
  show (if |upper start finish - lower start finish| < _ then _ else _) = _
  rw [width]
  simp only [Bool.and_eq_true, decide_eq_true_eq]

end Exactly

end VectorMotion.Trim
